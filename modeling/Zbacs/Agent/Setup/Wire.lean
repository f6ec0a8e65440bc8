import Zbacs.Agent.Setup
import Zbacs.Core.Wire

namespace Zbacs.Agent.Setup

open Zbacs.Lib Zbacs.Lib.Cbor Zbacs.Core

-- The CBOR map of the profile, entry by entry as the serialiser writes it.

def ApprovalStyle.asStr : ApprovalStyle → String
  | biometric => "biometric"
  | thisDevice => "this_device"

def ApprovalStyle.ofStr? : String → Option ApprovalStyle
  | "biometric" => some biometric
  | "this_device" => some thisDevice
  | _ => none

def SignerKind.asStr : SignerKind → String
  | platformPasskey => "platform_passkey"
  | deviceKey => "device_key"
  | bsa => "bsa"
  | otak => "otak"

def SignerKind.ofStr? : String → Option SignerKind
  | "platform_passkey" => some platformPasskey
  | "device_key" => some deviceKey
  | "bsa" => some bsa
  | "otak" => some otak
  | _ => none

def styleWire : Wire ApprovalStyle :=
  textWire.refine ApprovalStyle.ofStr? ApprovalStyle.asStr fun s => by cases s <;> rfl

def signerWire : Wire SignerKind :=
  textWire.refine SignerKind.ofStr? SignerKind.asStr fun k => by cases k <;> rfl

def publicKeyWire : Wire P256PublicKey :=
  ((entry "x" (.fixed 32)).pair (entry "y" (.fixed 32)) : Wire _).around [0xa2] []
  |>.iso (fun (x, y) => ⟨x, y⟩) (fun k => (k.x, k.y)) fun _ => rfl

theorem publicKeyWire_avoids_null : publicKeyWire.Avoids 0xf6 := fun _ => ⟨0xa2, _, rfl, by decide⟩

-- The account is not written as a byte string, but as an array of its bytes.
def accountWire : Wire (FixedBytes 20) :=
  u8Wire.array.refine (FixedBytes.ofBytes? 20) FixedBytes.bytes FixedBytes.ofBytes?_bytes

theorem accountWire_avoids_null : accountWire.Avoids 0xf6 := fun a => by
  obtain ⟨c, rest, hhead, hmajor⟩ := head_eq_cons (show 4 < 8 by decide) a.bytes.length
  refine ⟨c, rest ++ a.bytes.flatMap u8Wire.put, ?_, ?_⟩
  · rw [← List.cons_append, ← hhead]
    rfl
  · rintro rfl
    revert hmajor
    decide

def profileWire : Wire DeviceProfile :=
  ((entry "schema" u16Wire).pair <| (entry "style" styleWire).pair <| (entry "signer" signerWire).pair <|
    (entry "key_id" (.fixed 32)).pair <|
    (entry "public_key" (publicKeyWire.nullable publicKeyWire_avoids_null)).pair <|
    (entry "credential" .bytes).pair <| (entry "require_os_confirm" .bool).pair <|
    (entry "hardware_backed" .bool).pair <| (entry "device_x25519_pub" (.fixed 32)).pair <|
    (entry "device_ed25519_pub" (.fixed 32)).pair <| (entry "owner_sealing_pub" (.fixed 32)).pair <|
    (entry "owner_signing_pub" (.fixed 32)).pair <|
    (entry "account" (accountWire.nullable accountWire_avoids_null)).pair <|
    (entry "enrolled_on_chain" .bool).pair (entry "created_at" .uint) : Wire _).around [0xaf] []
  |>.iso
    (fun (schema, style, signer, keyId, publicKey, credential, requireOsConfirm, hardwareBacked,
        deviceX25519Pub, deviceEd25519Pub, ownerSealingPub, ownerSigningPub, account, enrolledOnChain,
        createdAt) => ⟨schema, style, signer, keyId, publicKey, credential, requireOsConfirm, hardwareBacked,
          deviceX25519Pub, deviceEd25519Pub, ownerSealingPub, ownerSigningPub, account, enrolledOnChain,
          createdAt⟩)
    (fun p => (p.schema, p.style, p.signer, p.keyId, p.publicKey, p.credential, p.requireOsConfirm,
      p.hardwareBacked, p.deviceX25519Pub, p.deviceEd25519Pub, p.ownerSealingPub, p.ownerSigningPub,
      p.account, p.enrolledOnChain, p.createdAt))
    fun _ => rfl

end Zbacs.Agent.Setup
