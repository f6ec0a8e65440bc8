import Zbacs.Agent.Approve

namespace Zbacs.Agent.Setup

open Zbacs.Lib

-- The first run, and the resume path every later run takes. What is on disk is the device's
-- public record, if there is one.

def profileSchema : UInt16 := 1

inductive ApprovalStyle where
  | biometric
  | thisDevice
deriving DecidableEq, Repr

inductive SignerKind where
  | platformPasskey
  | deviceKey
  | bsa
  | otak
deriving DecidableEq, Repr

namespace ApprovalStyle

def signerKind : ApprovalStyle → SignerKind
  | biometric => .platformPasskey
  | thisDevice => .deviceKey

def deviceConfirmation : ApprovalStyle → Confirmation
  | biometric => .osUserVerification
  | thisDevice => .notRequired

end ApprovalStyle

structure DeviceCapabilities where
  osAuthenticator : Bool
  hardwareKey : Bool
  persistentStore : Bool
deriving DecidableEq

-- A device without a hardware store can still hold a key.
def DeviceCapabilities.offers (c : DeviceCapabilities) : ApprovalStyle → Bool
  | .biometric => c.osAuthenticator
  | .thisDevice => true

structure P256PublicKey where
  x : FixedBytes 32
  y : FixedBytes 32
deriving DecidableEq

-- What is known of an approval signer.
structure Signer where
  kind : SignerKind
  keyId : FixedBytes 32
  publicKey : Option P256PublicKey
deriving DecidableEq

structure CreatedSigner where
  provider : Signer
  credential : Option Bytes
  hardwareBacked : Bool

-- What this device is, in public terms.
structure DeviceProfile where
  schema : UInt16
  style : ApprovalStyle
  signer : SignerKind
  keyId : FixedBytes 32
  publicKey : Option P256PublicKey
  credential : Bytes
  requireOsConfirm : Bool
  hardwareBacked : Bool
  deviceX25519Pub : FixedBytes 32
  deviceEd25519Pub : FixedBytes 32
  ownerSealingPub : FixedBytes 32
  ownerSigningPub : FixedBytes 32
  -- the owner's smart account, once it exists on chain
  account : Option (FixedBytes 20)
  enrolledOnChain : Bool
  createdAt : UInt64
deriving DecidableEq

-- Something setup could not finish.
inductive Pending where
  | accountOnChain
  | deviceEnrolment
  | recoveryCode
  | volatileKeyStore
  | softwareSigner
deriving DecidableEq, Repr

structure Prepared where
  profile : DeviceProfile
  signer : Signer
  pending : List Pending
deriving DecidableEq

inductive SetupError where
  | cancelled
  | confirmationUnavailable
  | hardware (what : String)
  | unsupported (kind : SignerKind)
  | malformed (what : String)
  | encode (what : String)
deriving DecidableEq, Repr

-- The public halves of the long-lived keys.
structure PublicKeys where
  deviceX25519 : FixedBytes 32
  deviceEd25519 : FixedBytes 32
  ownerSealing : FixedBytes 32
  ownerSigning : FixedBytes 32

-- What a call meets: whether the profile can be read and replaced, what the key store gives and
-- what the platform's signers do.
structure SetupEnv where
  capabilities : DeviceCapabilities
  reads : Bool
  writes : Bool
  keys : Except SetupError PublicKeys
  create : ApprovalStyle → Bool → Except SetupError CreatedSigner
  reopen : DeviceProfile → Except SetupError Signer
  now : UInt64

variable (env : SetupEnv) (disk : Option DeviceProfile)

-- A file written by a newer build is refused.
def profile : Except SetupError (Option DeviceProfile) :=
  if !env.reads then .error (.hardware "read profile")
  else match disk with
    | none => .ok none
    | some p => if p.schema ≠ profileSchema then .error (.encode "profile schema") else .ok (some p)

def writeProfile (p : DeviceProfile) : Except SetupError Unit × Option DeviceProfile :=
  if env.writes then (.ok (), some p) else (.error (.hardware "replace profile"), disk)

def pendingFor (p : DeviceProfile) : List Pending :=
  (if p.account.isNone then [.accountOnChain] else []) ++
  (if !p.enrolledOnChain then [.deviceEnrolment] else []) ++
  (if !p.hardwareBacked then [.softwareSigner] else []) ++
  (if !env.capabilities.persistentStore then [.volatileKeyStore] else []) ++ [.recoveryCode]

-- Reopen an earlier setup, if the platform hands back the key the profile was written for.
def resume : Except SetupError (Option Prepared) :=
  match profile env disk with
  | .error e => .error e
  | .ok none => .ok none
  | .ok (some p) => match env.reopen p with
    | .error e => .error e
    | .ok signer =>
      if signer.keyId ≠ p.keyId then
        .error (.hardware "stored approval key no longer matches this device")
      else .ok (some ⟨p, signer, pendingFor env p⟩)

-- The profile of a first run.
def newProfile (style : ApprovalStyle) (keys : PublicKeys) (created : CreatedSigner) : DeviceProfile :=
  { schema := profileSchema
    style := style
    signer := created.provider.kind
    keyId := created.provider.keyId
    publicKey := created.provider.publicKey
    credential := created.credential.getD []
    requireOsConfirm := style.deviceConfirmation = .osUserVerification
    hardwareBacked := created.hardwareBacked
    deviceX25519Pub := keys.deviceX25519
    deviceEd25519Pub := keys.deviceEd25519
    ownerSealingPub := keys.ownerSealing
    ownerSigningPub := keys.ownerSigning
    account := none
    enrolledOnChain := false
    createdAt := env.now }

-- Finish setup, or resume if this machine is already set up.
def complete (style : ApprovalStyle) : Except SetupError Prepared × Option DeviceProfile :=
  match resume env disk with
  | .error e => (.error e, disk)
  | .ok (some existing) => (.ok existing, disk)
  | .ok none =>
    if !env.capabilities.offers style then (.error (.unsupported style.signerKind), disk)
    else match env.keys with
      | .error e => (.error e, disk)
      | .ok keys => match env.create style (style.deviceConfirmation = .osUserVerification) with
        | .error e => (.error e, disk)
        | .ok created =>
          let p := newProfile env style keys created
          match writeProfile env disk p with
          | (.error e, disk) => (.error e, disk)
          | (.ok (), disk) => (.ok ⟨p, created.provider, pendingFor env p⟩, disk)

-- Record the owner's address. A profile that names a different one is left alone.
def adoptAccount (account : FixedBytes 20) : Except SetupError (List Pending) × Option DeviceProfile :=
  match profile env disk with
  | .error e => (.error e, disk)
  | .ok none => (.error (.hardware "this device has not been set up yet"), disk)
  | .ok (some p) => match p.account with
    | some existing =>
      if existing ≠ account then
        (.error (.malformed "this device already belongs to another owner account"), disk)
      else (.ok (pendingFor env p), disk)
    | none =>
      let p := { p with account := some account }
      match writeProfile env disk p with
      | (.error e, disk) => (.error e, disk)
      | (.ok (), disk) => (.ok (pendingFor env p), disk)

section

variable {env : SetupEnv} {disk disk' : Option DeviceProfile}

theorem profile_eq_ok {p : DeviceProfile} (h : profile env disk = .ok (some p)) : disk = some p := by
  unfold profile at h
  split_ifs at h
  cases disk with
  | none => cases h
  | some q =>
      simp only at h
      split_ifs at h
      cases h
      rfl

theorem profile_eq_none (h : profile env disk = .ok none) : disk = none := by
  unfold profile at h
  split_ifs at h
  cases disk with
  | none => rfl
  | some q =>
      simp only at h
      split_ifs at h
      cases h

-- What is resumed is what is on disk.
theorem resume_eq_ok {r : Prepared} (h : resume env disk = .ok (some r)) : disk = some r.profile := by
  unfold resume at h
  split at h
  · cases h
  · cases h
  · rename_i p hp
    split at h
    · cases h
    · split_ifs at h
      cases h
      exact profile_eq_ok hp

theorem resume_eq_none (h : resume env disk = .ok none) : disk = none := by
  unfold resume at h
  split at h
  · cases h
  · rename_i hp
    exact profile_eq_none hp
  · split at h
    · cases h
    · split_ifs at h
      cases h

-- A setup never replaces a profile: it leaves the disk alone, or is the first.
theorem complete_cases (style : ApprovalStyle) {result : Except SetupError Prepared}
    (h : complete env disk style = (result, disk')) :
    (disk' = disk ∧ ∀ r, result = .ok r → disk = some r.profile) ∨
      disk = none ∧ ∃ r, result = .ok r ∧ disk' = some r.profile := by
  unfold complete at h
  split at h
  · cases h
    exact .inl ⟨rfl, by rintro r ⟨⟩⟩
  · rename_i existing hresume
    cases h
    exact .inl ⟨rfl, by rintro r ⟨⟩; exact resume_eq_ok hresume⟩
  · rename_i hresume
    split_ifs at h
    · cases h
      exact .inl ⟨rfl, by rintro r ⟨⟩⟩
    · split at h
      · cases h
        exact .inl ⟨rfl, by rintro r ⟨⟩⟩
      · split at h
        · cases h
          exact .inl ⟨rfl, by rintro r ⟨⟩⟩
        · unfold writeProfile at h
          cases hwrites : env.writes with
          | false =>
              simp only [hwrites, Bool.false_eq_true, if_false] at h
              cases h
              exact .inl ⟨rfl, by rintro r ⟨⟩⟩
          | true =>
              simp only [hwrites, if_true] at h
              cases h
              exact .inr ⟨resume_eq_none hresume, _, rfl, rfl⟩

-- An adoption that goes through leaves a profile that names the account, and nothing else in it
-- has changed; one that does not leaves the disk alone.
theorem adoptAccount_cases {account : FixedBytes 20} {result : Except SetupError (List Pending)}
    (h : adoptAccount env disk account = (result, disk')) :
    ((∃ e, result = .error e) ∧ disk' = disk) ∨
      ∃ p pending, result = .ok pending ∧ disk = some p ∧ (p.account = none ∨ p.account = some account) ∧
        disk' = some { p with account := some account } := by
  unfold adoptAccount at h
  split at h
  · cases h
    exact .inl ⟨⟨_, rfl⟩, rfl⟩
  · cases h
    exact .inl ⟨⟨_, rfl⟩, rfl⟩
  · rename_i p hp
    obtain rfl := profile_eq_ok hp
    split at h
    · rename_i existing hexisting
      split_ifs at h with hsame
      · cases h
        exact .inl ⟨⟨_, rfl⟩, rfl⟩
      · cases h
        obtain rfl := not_not.mp hsame
        exact .inr ⟨p, _, rfl, rfl, .inr hexisting, by rw [← hexisting]⟩
    · rename_i hnone
      unfold writeProfile at h
      cases hwrites : env.writes with
      | false =>
          simp only [hwrites, Bool.false_eq_true, if_false] at h
          cases h
          exact .inl ⟨⟨_, rfl⟩, rfl⟩
      | true =>
          simp only [hwrites, if_true] at h
          cases h
          exact .inr ⟨p, _, rfl, rfl, .inl hnone, rfl⟩

end

end Zbacs.Agent.Setup
