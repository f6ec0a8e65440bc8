import Zbacs.Agent.Approve.Theorems
import Zbacs.Agent.OwnerDevice
import Zbacs.Core.Path.Theorems

namespace Zbacs.Agent

open Zbacs.Lib Zbacs.Core Zbacs.Proto Zbacs.Agent.Setup

section Id

-- An id that came of this profile: from before the account was adopted, or from after.
structure NamedBy (p : DeviceProfile) (account : Option (FixedBytes 20)) (own : Bytes) : Prop where
  own_eq : own = ownerAccount { p with account := account }
  adopted : ∀ a, account = some a → p.account = some a

variable {p : DeviceProfile} {account account' : Option (FixedBytes 20)} {own own' : Bytes}

theorem namedBy_self (p : DeviceProfile) : NamedBy p p.account (ownerAccount p) :=
  ⟨rfl, fun _ h => h⟩

theorem NamedBy.length (h : NamedBy p account own) : own.length = 20 ∨ own.length = 32 := by
  rw [h.own_eq]
  cases account with
  | none => exact .inr p.ownerSigningPub.length_bytes
  | some a => exact .inl a.length_bytes

-- Two ids of one profile are the same exactly when they are from the same side of the adoption.
theorem NamedBy.own_eq_iff (h : NamedBy p account own) (h' : NamedBy p account' own') :
    own = own' ↔ account = account' := by
  refine ⟨fun hown => ?_, fun haccount => by rw [h.own_eq, h'.own_eq, haccount]⟩
  have hlen := congrArg List.length hown
  cases account with
  | none => cases account' with
    | none => rfl
    | some a' =>
        rw [h.own_eq, h'.own_eq] at hlen
        have hkey : 32 = 20 := (p.ownerSigningPub.length_bytes.symm.trans hlen).trans a'.length_bytes
        omega
  | some a => cases account' with
    | none =>
        rw [h.own_eq, h'.own_eq] at hlen
        have hkey : 20 = 32 := (a.length_bytes.symm.trans hlen).trans p.ownerSigningPub.length_bytes
        omega
    | some a' => exact (h.adopted a rfl).symm.trans (h'.adopted a' rfl)

theorem NamedBy.adopt (h : NamedBy p account own) {owner : FixedBytes 20}
    (howner : p.account = none ∨ p.account = some owner) :
    NamedBy { p with account := some owner } account own := by
  refine ⟨h.own_eq, fun a ha => ?_⟩
  have haccount := h.adopted a ha
  rcases howner with hnone | hsome
  · rw [hnone] at haccount
    cases haccount
  · exact hsome.symm.trans haccount

end Id

section Seal

variable {P : Primitives} {owner : OwnerKeys P} {profile : DeviceProfile} {request : SealRequest}
  {run : SealRun} {fs : Fs}

-- Whoever owns the machine, a seal takes what was chosen on the lock screen.
theorem sealOpts_sealable (profile : DeviceProfile)
    (hname : (utf8 (fileName request.path)).length ≤ maxNameLen) :
    (sealOpts profile request).Sealable P where
  chunkPos := show 0 < defaultChunk by decide
  chunkMax := show defaultChunk ≤ maxChunk by decide
  name := hname
  ownerPos := show 0 < (ownerAccount profile).length by
    have hlen := (namedBy_self profile).length
    omega
  ownerMax := show (ownerAccount profile).length ≤ 64 by
    have hlen := (namedBy_self profile).length
    omega
  recipients := by
    intro pk hpk
    cases hpk
  recipientsMax := Nat.zero_le _
  prev := by rintro p ⟨⟩

-- What is locked here was found fit for it, and is sealed as the person chose.
theorem writeLocked_eq_ok {h : Header} (hwrite : (writeLocked P owner profile request run fs).1 = .ok h) :
    (examine run.readable request.path fs).ok = true ∧ ∃ plaintext out headerBytes frames,
      SealedAs P plaintext owner.sealing.x25519Pk owner.signing (sealOpts profile request) run.rng h out
        headerBytes frames := by
  unfold writeLocked at hwrite
  simp only at hwrite
  split at hwrite
  · cases hwrite
  · rename_i hok
    split at hwrite
    · cases hwrite
    · rename_i header fs' hseal
      cases hwrite
      obtain ⟨plaintext, out, headerBytes, frames, -, -, s, -⟩ := sealSignedToPath_eq_ok hseal
      exact ⟨by simpa using hok, plaintext, out, headerBytes, frames, s⟩

-- It carries the id of the profile.
theorem own_writeLocked {h : Header} (hwrite : (writeLocked P owner profile request run fs).1 = .ok h) :
    h.body.own = ownerAccount profile := by
  obtain ⟨-, plaintext, out, headerBytes, frames, s⟩ := writeLocked_eq_ok hwrite
  exact s.header.own

end Seal

namespace OwnerDevice

variable {L : Libraries} {d d' : OwnerDevice}

section Steps

theorem clientFor_eq_ok {keys : Except SetupError Unit} {client : Except ClientError Unit}
    {w : InboxWatcher} (h : d.clientFor keys client = .ok w) :
    ∃ r, d.identity = some r ∧ w = ⟨ownerAccount r.profile, r.profile.account⟩ := by
  unfold clientFor at h
  split at h
  · cases h
  · rename_i prepared hprepared
    split_ifs at h
    split at h
    · cases h
    · cases h
    · cases h
      exact ⟨prepared, hprepared, rfl⟩

theorem sealer_eq_ok {keys : Except SetupError (OwnerKeys L.toPrimitives)} {prepared : Prepared}
    {owner : OwnerKeys L.toPrimitives} (h : d.sealer keys = .ok (prepared, owner)) :
    d.identity = some prepared := by
  unfold sealer at h
  split at h
  · cases h
  · rename_i r hidentity
    split_ifs at h
    split at h
    · cases h
    · cases h
      exact hidentity

theorem written_eq_some {keys : Except SetupError (OwnerKeys L.toPrimitives)} {request : SealRequest}
    {run : SealRun} {fs : Fs} {f : Locked} (h : d.written keys request run fs = some f) :
    ∃ r, d.identity = some r ∧ f.account = r.profile.account ∧
      f.header.body.own = ownerAccount r.profile := by
  unfold written at h
  split at h
  · cases h
  · rename_i prepared owner hsealer
    split at h
    · cases h
    · rename_i header hwrite
      cases h
      exact ⟨prepared, sealer_eq_ok hsealer, rfl, own_writeLocked hwrite⟩

theorem written_ok {owner : OwnerKeys L.toPrimitives} {request : SealRequest} {run : SealRun} {fs : Fs}
    {r : Prepared} {h : Header} (hidentity : d.identity = some r) (hprofile : d.profile.isNone = false)
    (hwrite : (writeLocked L.toPrimitives owner r.profile request run fs).1 = .ok h) :
    d.written (.ok owner) request run fs = some ⟨h, r.profile.account⟩ := by
  simp only [written, sealer, hidentity, hprofile, Bool.false_eq_true, if_false, hwrite]

-- All that a step can do to the device.
inductive Stepped (d : OwnerDevice) : DeviceAction L → OwnerDevice → Prop
  | quiet {a : DeviceAction L} (hseal : ∀ keys request run fs, a = .sealFile keys request run fs →
      d.written keys request run fs = none)
      (hwatch : ∀ keys client, a = .ensureWatching keys client → d.watching = none →
        ∀ w, d.clientFor keys client ≠ .ok w) : Stepped d a d
  | setUp {style : ApprovalStyle} {env : SetupEnv} {r : Prepared} (hnew : d.profile = none) :
      Stepped d (.completeSetup style env)
        { d with profile := some r.profile, identity := some r }
  | resumed {style : ApprovalStyle} {env : SetupEnv} {r : Prepared} (hold : d.profile = some r.profile) :
      Stepped d (.completeSetup style env) { d with identity := some r }
  | watches {keys : Except SetupError Unit} {client : Except ClientError Unit} {w : InboxWatcher}
      (hnone : d.watching = none) (hclient : d.clientFor keys client = .ok w) :
      Stepped d (.ensureWatching keys client) { d with watching := some w }
  | locks {keys : Except SetupError (OwnerKeys L.toPrimitives)} {request : SealRequest} {run : SealRun}
      {fs : Fs} {f : Locked} (hwritten : d.written keys request run fs = some f) :
      Stepped d (.sealFile keys request run fs) { d with locked := d.locked ++ [f] }
  | adopts {owner : FixedBytes 20} {env : SetupEnv} {p : DeviceProfile} {pending : List Setup.Pending}
      (hold : d.profile = some p) (howner : p.account = none ∨ p.account = some owner) :
      Stepped d (.adoptOwner owner env) { d with
        profile := some { p with account := some owner }
        identity := d.identity.map fun r =>
          { r with profile := { r.profile with account := some owner }, pending := pending } }
  | restarts {env : SetupEnv} {identity : Option Prepared}
      (hidentity : ∀ r, identity = some r → d.profile = some r.profile) :
      Stepped d (.restart env) ⟨d.profile, d.locked, identity, none⟩

theorem step_stepped (d : OwnerDevice) (a : DeviceAction L) : Stepped d a (d.step a).2 := by
  cases a with
  | completeSetup style env =>
      unfold step
      simp only
      rcases hcomplete : complete env d.profile style with ⟨e | r, disk⟩
      · rcases complete_cases style hcomplete with ⟨rfl, -⟩ | ⟨-, r, hr, -⟩
        · exact .quiet (by rintro _ _ _ _ ⟨⟩) (by rintro _ _ ⟨⟩)
        · cases hr
      · rcases complete_cases style hcomplete with ⟨rfl, hold⟩ | ⟨hnew, r', hr, rfl⟩
        · exact .resumed (hold r rfl)
        · obtain rfl := Except.ok.inj hr
          exact .setUp hnew
  | ensureWatching keys client =>
      unfold step
      simp only
      cases hwatching : d.watching with
      | some w =>
          refine .quiet (by rintro _ _ _ _ ⟨⟩) ?_
          rintro _ _ ⟨⟩ hnone
          rw [hwatching] at hnone
          cases hnone
      | none => cases hclient : d.clientFor keys client with
        | error e =>
            refine .quiet (by rintro _ _ _ _ ⟨⟩) ?_
            rintro _ _ ⟨⟩ - w hw
            rw [hclient] at hw
            cases hw
        | ok w => exact .watches hwatching hclient
  | sealFile keys request run fs =>
      unfold step
      simp only
      cases hwritten : d.written keys request run fs with
      | none =>
          rw [Option.toList_none, List.append_nil]
          refine .quiet ?_ (by rintro _ _ ⟨⟩)
          rintro _ _ _ _ ⟨⟩
          exact hwritten
      | some f => exact .locks hwritten
  | adoptOwner owner env =>
      unfold step adoptOwner
      simp only
      rcases hadopt : adoptAccount env d.profile owner with ⟨e | pending, disk⟩
      · rcases adoptAccount_cases hadopt with ⟨-, rfl⟩ | ⟨p, pending, hpending, -⟩
        · exact .quiet (by rintro _ _ _ _ ⟨⟩) (by rintro _ _ ⟨⟩)
        · cases hpending
      · rcases adoptAccount_cases hadopt with ⟨⟨e, he⟩, -⟩ | ⟨p, pending', -, hold, howner, rfl⟩
        · cases he
        · exact .adopts hold howner
  | restart env =>
      refine .restarts fun r hr => ?_
      cases hresume : resume env d.profile with
      | error e =>
          rw [hresume] at hr
          cases hr
      | ok resumed =>
          rw [hresume] at hr
          obtain rfl : resumed = some r := hr
          exact resume_eq_ok hresume

end Steps

end OwnerDevice

end Zbacs.Agent
