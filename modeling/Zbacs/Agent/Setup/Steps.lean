import Zbacs.Agent.Setup
import Zbacs.Lib.Script

namespace Zbacs.Agent.Setup

open Zbacs.Lib Zbacs.Core

-- Setup step by step: the key store entry by entry, the platform's signers, and the profile, which is
-- written beside its place and renamed.

inductive KeyEntry where
  | deviceX25519
  | deviceEd25519
  | ownerSealing
  | ownerSigning
deriving DecidableEq, Repr

def KeyEntry.name : KeyEntry → String
  | deviceX25519 => "device-x25519"
  | deviceEd25519 => "device-ed25519"
  | ownerSealing => "owner-sealing"
  | ownerSigning => "owner-signing"

-- What the machine keeps: the long-lived secrets, the file with the profile, and the one beside it.
structure Storage where
  keys : KeyEntry → Option Bytes
  profile : Option Bytes
  tmp : Option Bytes

-- The profile that a read gives.
def Storage.stored (C : Codec DeviceProfile) (s : Storage) : Option DeviceProfile := do
  let content ← s.profile
  let p ← (C.decode content).toOption
  if p.schema = profileSchema then some p else none

inductive SetupCall where
  | profileExists
  | readProfile
  | get (entry : KeyEntry)
  | put (entry : KeyEntry) (secret : Bytes)
  | random
  | capabilities
  | create (style : ApprovalStyle) (requireOsConfirm : Bool)
  | reopen (p : DeviceProfile)
  | createDir
  | writeTmp (content : Bytes)
  | restrictTmp
  | replaceProfile

namespace SetupCall

abbrev Answer : SetupCall → Type
  | profileExists => Bool
  | readProfile => Except SetupError (Option Bytes)
  | get _ => Except SetupError (Option Bytes)
  | put .. => Except SetupError Unit
  | random => FixedBytes 32
  | capabilities => DeviceCapabilities
  | create .. => Except SetupError CreatedSigner
  | reopen _ => Except SetupError Signer
  | createDir => Except SetupError Unit
  | writeTmp _ => Except SetupError Unit
  | restrictTmp => Except SetupError Unit
  | replaceProfile => Except SetupError Unit

-- The secret under an entry, and the others as they were.
def stored (s : Storage) (entry : KeyEntry) (secret : Bytes) : Storage :=
  { s with keys := fun e => if e = entry then some secret else s.keys e }

-- Anything that can fail may fail. What the key store gives is what was put there, and a put that
-- reports an error may have stored the secret. A write that fails leaves anything in its file.
def Does : (c : SetupCall) → Storage → c.Answer → Storage → Prop
  | profileExists, s, x, s' => s' = s ∧ (x = true → s.profile ≠ none)
  | readProfile, s, x, s' => s' = s ∧ ∀ content, x = .ok content → content = s.profile
  | get entry, s, x, s' => s' = s ∧ ∀ found, x = .ok found → found = s.keys entry
  | put entry secret, s, x, s' => s' = stored s entry secret ∨ (s' = s ∧ x ≠ .ok ())
  | random, s, _, s' => s' = s
  | capabilities, s, _, s' => s' = s
  | create .., s, _, s' => s' = s
  | reopen _, s, _, s' => s' = s
  | createDir, s, _, s' => s' = s
  | writeTmp content, s, x, s' => ∃ left, s' = { s with tmp := left } ∧ (x = .ok () → left = some content)
  | restrictTmp, s, _, s' => s' = s
  | replaceProfile, s, x, s' => (x = .ok () ∧ s.tmp ≠ none ∧ s' = { s with profile := s.tmp, tmp := none }) ∨
      (x ≠ .ok () ∧ s' = s)

end SetupCall

abbrev setupService : Service Storage := ⟨SetupCall, SetupCall.Answer, SetupCall.Does⟩

abbrev SetupM (α : Type) := Attempt setupService SetupError α

-- What is still outstanding, on a device whose secrets outlive a restart or do not.
def outstanding (persistentStore : Bool) (p : DeviceProfile) : List Pending :=
  (if p.account.isNone then [.accountOnChain] else []) ++
  (if !p.enrolledOnChain then [.deviceEnrolment] else []) ++
  (if !p.hardwareBacked then [.softwareSigner] else []) ++
  (if !persistentStore then [.volatileKeyStore] else []) ++ [.recoveryCode]

-- This device's two long-lived keys for talking through the relay.
structure DeviceKeyPair (P : Primitives) where
  envelope : DeviceKeys P
  signing : SigningKeys

namespace Steps

def attempt {α : Type} (prog : Script setupService (Except SetupError α)) : SetupM α := ExceptT.mk prog

def ask (c : SetupCall) : Script setupService c.Answer := @Script.ask _ setupService c

section Keys

variable (P : Primitives)

-- The secret under an entry, made and put there on the first run.
def secret (entry : KeyEntry) : SetupM Bytes := do
  match ← attempt (ask (.get entry)) with
  | some found => return found
  | none =>
    let fresh : FixedBytes 32 ← ExceptT.lift (ask .random)
    attempt (ask (.put entry fresh.bytes))
    return fresh.bytes

def keyErr (entry : KeyEntry) : SetupError := .hardware ("key material " ++ entry.name)

-- A stored secret of another length is no key.
def secretKey (entry : KeyEntry) : SetupM (FixedBytes 32) := do
  match FixedBytes.ofBytes? 32 (← secret entry) with
  | none => throw (keyErr entry)
  | some sk => return sk

def x25519 (entry : KeyEntry) : SetupM (DeviceKeys P) := return .fromSecret (← secretKey entry)

def ed25519 (entry : KeyEntry) : SetupM SigningKeys := return ⟨← secretKey entry⟩

def notSetUp : SetupError := .hardware "this device has not been set up yet"

-- The owner's sealing and header-signing keys.
def ownerKeys : SetupM (OwnerKeys P) := do
  if !(← (ExceptT.lift (ask .profileExists) : SetupM Bool)) then throw notSetUp
  return ⟨← x25519 P .ownerSealing, ← ed25519 .ownerSigning⟩

-- This device's relay identity.
def deviceKeys : SetupM (DeviceKeyPair P) := do
  if !(← (ExceptT.lift (ask .profileExists) : SetupM Bool)) then throw notSetUp
  return ⟨← x25519 P .deviceX25519, ← ed25519 .deviceEd25519⟩

end Keys

section Profile

variable (P : Primitives) (C : Codec DeviceProfile)

def profile : SetupM (Option DeviceProfile) := do
  match ← attempt (ask .readProfile) with
  | none => return none
  | some content => match C.decode content with
    | .error _ => throw (.encode "profile")
    | .ok p => if p.schema ≠ profileSchema then throw (.encode "profile schema") else return some p

def writeProfile (p : DeviceProfile) : SetupM Unit := do
  attempt (ask .createDir)
  match C.encode p with
  | .error e => throw (.encode e)
  | .ok content =>
    attempt (ask (.writeTmp content))
    attempt (ask .restrictTmp)
    attempt (ask .replaceProfile)

def pendingFor (p : DeviceProfile) : SetupM (List Pending) := do
  let c : DeviceCapabilities ← ExceptT.lift (ask .capabilities)
  return outstanding c.persistentStore p

def resume : SetupM (Option Prepared) := do
  match ← profile C with
  | none => return none
  | some p =>
    let signer ← attempt (ask (.reopen p))
    if signer.keyId ≠ p.keyId then throw (.hardware "stored approval key no longer matches this device")
    return some ⟨p, signer, ← pendingFor p⟩

-- The long-lived keys, each as an earlier attempt left it.
def longLivedKeys : SetupM PublicKeys := do
  let deviceX ← x25519 P .deviceX25519
  let deviceEd ← ed25519 .deviceEd25519
  let ownerSealing ← x25519 P .ownerSealing
  let ownerSigning ← ed25519 .ownerSigning
  return ⟨deviceX.x25519Pk, deviceEd.verifyingKey P, ownerSealing.x25519Pk, ownerSigning.verifyingKey P⟩

-- The profile of a first run.
def firstProfile (style : ApprovalStyle) (now : UInt64) (keys : PublicKeys) (created : CreatedSigner) :
    DeviceProfile :=
  { schema := profileSchema
    style := style
    signer := created.provider.kind
    keyId := created.provider.keyId
    publicKey := created.provider.publicKey
    credential := created.credential.getD []
    requireOsConfirm := style.deviceConfirmation = .osUserVerification
    hardwareBacked := created.hardwareBacked
    deviceX25519Pub := keys.deviceX25519
    deviceEd25519Pub := keys.deviceEd25519
    ownerSealingPub := keys.ownerSealing
    ownerSigningPub := keys.ownerSigning
    account := none
    enrolledOnChain := false
    createdAt := now }

def firstRun (style : ApprovalStyle) (now : UInt64) : SetupM Prepared := do
  let c : DeviceCapabilities ← ExceptT.lift (ask .capabilities)
  if !c.offers style then throw (.unsupported style.signerKind)
  let keys ← longLivedKeys P
  let created ← attempt (ask (.create style (style.deviceConfirmation = .osUserVerification)))
  let p := firstProfile style now keys created
  writeProfile C p
  return ⟨p, created.provider, ← pendingFor p⟩

def complete (style : ApprovalStyle) (now : UInt64) : SetupM Prepared := do
  match ← resume C with
  | some existing => return existing
  | none => firstRun P C style now

def adoptAccount (account : FixedBytes 20) : SetupM (List Pending) := do
  match ← profile C with
  | none => throw notSetUp
  | some p => match p.account with
    | some existing =>
      if existing ≠ account then throw (.malformed "this device already belongs to another owner account")
      pendingFor p
    | none =>
      let p := { p with account := some account }
      writeProfile C p
      pendingFor p

end Profile

end Steps

end Zbacs.Agent.Setup
