import Zbacs.Auth.Software
import Zbacs.Onchain.Account

namespace Zbacs.Agent

open Zbacs.Lib Zbacs.Core
open Zbacs.Auth (ApprovalAssertion ApprovalChallenge)
open Zbacs.Auth.WebAuthn (kindWord)
open Zbacs.Agent.Setup (SignerKind ApprovalStyle DeviceProfile)
open Zbacs.Onchain (RootValidator Write p256RawSignature webauthnSignature)

-- The device's approval key as the signer of the owner's smart account.

-- Our validator for a device key, Kernel's WebAuthn validator for a passkey.
def rootValidatorFor (profile : DeviceProfile) (p256Validator : Option Contracts.Address) :
    Option RootValidator := do
  let key ← profile.publicKey
  match profile.signer with
  | .deviceKey =>
    let validator ← p256Validator
    some (.deviceKey validator key.x key.y profile.requireOsConfirm)
  | .platformPasskey => some (.webAuthn key.x key.y profile.credential)
  | .bsa | .otak => none

-- What the signer goes by: the choice at setup, the rules, and when it approved something lately.
structure DeviceUserOpSigner where
  deviceSetting : Confirmation
  policy : ConfirmationPolicy
  recent : List UInt64

namespace DeviceUserOpSigner

def new (deviceSetting : Confirmation) : DeviceUserOpSigner := ⟨deviceSetting, .default, []⟩

def encode : ApprovalAssertion → Except ChainError Bytes
  | .p256Raw keyId r s => .ok (p256RawSignature keyId r s)
  | .webAuthn authenticatorData clientDataJson r s =>
    .ok (webauthnSignature authenticatorData clientDataJson r s true)
  | other => .error (.config
      ("a " ++ kindWord (Auth.WebAuthn.kind other) ++ " assertion cannot authorise a user operation"))

-- What a write is signed as, and whether the person is asked again.
def asks (about : Write) (now : UInt64) (signer : DeviceUserOpSigner) : Permission × Confirmation :=
  match about with
  | .grant _ permission =>
    let permission := if permission = 2 then .edit else .readOnly
    (permission, signer.policy.required permission signer.deviceSetting signer.recent now)
  | .register _ | .revoke _ => (.readOnly, signer.deviceSetting)
  -- not a tap at all
  | .bumpVersion _ => (.readOnly, .notRequired)

-- An approval that was signed is noted, whatever becomes of its encoding.
def noted (about : Write) (now : UInt64) (signer : DeviceUserOpSigner) : DeviceUserOpSigner :=
  match about with
  | .grant .. => { signer with recent := signer.recent ++ [now] }
  | .register _ | .revoke _ | .bumpVersion _ => signer

def signUserOp (sign : ApprovalChallenge → Confirmation → Except Auth.WebAuthn.AuthError ApprovalAssertion)
    (hash : FixedBytes 32) (about : Write) (now : UInt64) (signer : DeviceUserOpSigner) :
    Except ChainError Bytes × DeviceUserOpSigner :=
  let (permission, confirmation) := signer.asks about now
  match sign ⟨hash, permission, about.fileId⟩ confirmation with
  | .error e => (.error (.config ("approval signature: " ++ e.text)), signer)
  | .ok assertion => (encode assertion, signer.noted about now)

-- What stands in for a signature while gas is estimated.
def stubSignature : SignerKind → Bytes
  | .platformPasskey =>
    webauthnSignature (List.replicate 37 0)
      ("\x7b\"type\":\"webauthn.get\",\"challenge\":\"AAAAAAAAAAAAAAAAAAAAAAAAAAAAAAAAAAAAAAAAAAA\"," ++
        "\"origin\":\"https://zbacs.local\"\x7d") (.replicate 32 1) (.replicate 32 1) true
  | .deviceKey | .bsa | .otak =>
    p256RawSignature (.replicate 32 0xaa) (.replicate 32 0xaa) (.replicate 32 0xaa)

end DeviceUserOpSigner

end Zbacs.Agent
