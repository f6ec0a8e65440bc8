import Zbacs.Agent.Bursts.Windows
import Zbacs.Agent.UserOpSigner
import Zbacs.Auth.Software.Verified

namespace Zbacs.Agent.DeviceUserOpSigner

open Zbacs.Lib Zbacs.Core
open Zbacs.Auth.WebAuthn (Crates)
open Zbacs.Auth.WebAuthn.Software (SoftwareDeviceKey SigningKey)
open Zbacs.Onchain (Write)

-- What a device signs for its account without ever asking anyone.

structure OpCall where
  hash : FixedBytes 32
  about : Write
  now : UInt64
deriving DecidableEq

def step (C : Crates) (k : SoftwareDeviceKey) (s : DeviceUserOpSigner) (c : OpCall) :
    Except ChainError Bytes × DeviceUserOpSigner :=
  s.signUserOp (k.sign C) c.hash c.about c.now

abbrev OpLog := List (Taken DeviceUserOpSigner OpCall (Except ChainError Bytes))

-- An approval that was signed.
def signsGrant (x : Taken DeviceUserOpSigner OpCall (Except ChainError Bytes)) : Bool :=
  match x.input.about with
  | .grant .. => x.output.isOk
  | .register _ | .bumpVersion _ | .revoke _ => false

def signedGrants (log : OpLog) : List UInt64 := (log.filter signsGrant).map (·.input.now)

-- Time does not go back.
def InOrder (log : OpLog) (x : Taken DeviceUserOpSigner OpCall (Except ChainError Bytes)) : Prop :=
  ∀ y ∈ log, y.input.now ≤ x.input.now

instance (log : OpLog) (x : Taken DeviceUserOpSigner OpCall (Except ChainError Bytes)) :
    Decidable (InOrder log x) := inferInstanceAs (Decidable (∀ y ∈ log, _))

-- What is signed of what it is asked for, with what it signed before.
def Signs (log : OpLog) (x : Taken DeviceUserOpSigner OpCall (Except ChainError Bytes)) : Prop :=
  x.output.isOk = true ↔ ∀ fileId permission, x.input.about = .grant fileId permission →
    permission ≠ 2 ∧ recently UInt64.toNat 600 x.input.now.toNat (signedGrants log) < 5

section Rule

variable {recent : List UInt64} {now : UInt64}

theorem listed_eq_recently (h : ∀ t ∈ recent, t ≤ now) :
    listed recent now = recently UInt64.toNat 600 now.toNat recent := by
  rw [listed, recently, ← List.countP_eq_length_filter]
  refine List.countP_congr fun t ht => ?_
  have hle := UInt64.le_iff_toNat_le.mp (h t ht)
  have hcases : saturatingSub now 600 ≤ t ↔ now.toNat ≤ t.toNat + 600 := by
    rw [saturatingSub]
    split_ifs with hsub
    · rw [UInt64.le_iff_toNat_le, UInt64.toNat_sub_of_le _ _ hsub]
      have h600 : (600 : UInt64).toNat = 600 := rfl
      omega
    · have hzero : (0 : UInt64) ≤ t := by
        rw [UInt64.le_iff_toNat_le]
        exact Nat.zero_le _
      rw [UInt64.le_iff_toNat_le] at hsub
      have h600 : (600 : UInt64).toNat = 600 := rfl
      exact iff_of_true hzero (by omega)
  simp [hcases, h t ht]

-- With fewer than five of late there is no question.
theorem required_readOnly (h : listed recent now < 2 ^ 32) :
    ConfirmationPolicy.default.required .readOnly .notRequired recent now =
      if listed recent now < 5 then .notRequired else .osUserVerification := by
  have hchoice : ConfirmationPolicy.default.required .readOnly .notRequired recent now =
      if 5 ≤ UInt32.ofNat (listed recent now) then .osUserVerification else .notRequired := by
    rw [ConfirmationPolicy.required, if_neg (by decide), if_neg (by decide)]
    rfl
  rw [hchoice]
  have hle : 5 ≤ UInt32.ofNat (listed recent now) ↔ 5 ≤ listed recent now := by
    rw [UInt32.le_iff_toNat_le, UInt32.toNat_ofNat_of_lt' h]
    rfl
  by_cases hfive : listed recent now < 5
  · rw [if_neg (mt hle.mp (Nat.not_le.mpr hfive)), if_pos hfive]
  · rw [if_pos (hle.mpr (Nat.not_lt.mp hfive)), if_neg hfive]

-- What came at a pace and not after now is within the limit.
theorem recently_le {time : UInt64 → Nat} {width limit now : Nat} (h : Paced time width limit recent)
    (htimes : ∀ t ∈ recent, time t ≤ now) : recently time width now recent ≤ limit := by
  refine le_trans ?_ (h.countP_le (now - width))
  refine List.countP_mono_left fun t ht hrecent => ?_
  have hle := htimes t ht
  simp only [decide_eq_true_eq] at hrecent ⊢
  omega

end Rule

section Run

variable {C : Crates} {k : SoftwareDeviceKey} {log : OpLog} {s : DeviceUserOpSigner} {c : OpCall}

-- Where nobody is to be asked the key signs.
theorem step_quiet (h : (s.asks c.about c.now).2 = .notRequired) :
    (step C k s c).1.isOk = true ∧ (step C k s c).2 = s.noted c.about c.now := by
  simp [step, signUserOp, SoftwareDeviceKey.sign, h, encode, Except.isOk, Except.toBool]

-- A key that cannot ask does not sign where somebody is.
theorem step_asking (hk : k.osConfirmation = false) (h : (s.asks c.about c.now).2 = .osUserVerification) :
    (step C k s c).1.isOk = false ∧ (step C k s c).2 = s := by
  simp [step, signUserOp, SoftwareDeviceKey.sign, h, hk, Except.isOk, Except.toBool]

theorem signedGrants_concat {x : Taken DeviceUserOpSigner OpCall (Except ChainError Bytes)} :
    signedGrants (log ++ [x]) =
      signedGrants log ++ if signsGrant x = true then [x.input.now] else [] := by
  rw [signedGrants, List.filter_append, List.map_append]
  by_cases hx : signsGrant x = true
  · rw [List.filter_cons_of_pos hx, if_pos hx]
    rfl
  · rw [List.filter_cons_of_neg hx, if_neg hx]
    rfl

-- The signer's list is what it signed, and that came at the pace of the rule.
structure Listing (log : OpLog) (s : DeviceUserOpSigner) : Prop where
  setting : s.deviceSetting = .notRequired
  policy : s.policy = .default
  recent : s.recent = signedGrants log
  paced : Paced UInt64.toNat 600 5 (signedGrants log)

theorem mem_signedGrants {t : UInt64} (h : t ∈ signedGrants log) : ∃ x ∈ log, x.input.now = t := by
  obtain ⟨x, hx, rfl⟩ := List.mem_map.mp h
  exact ⟨x, (List.mem_filter.mp hx).1, rfl⟩

theorem Listing.unsigned (h : Listing log s) {x : Taken DeviceUserOpSigner OpCall (Except ChainError Bytes)}
    (hx : signsGrant x = false) : Listing (log ++ [x]) s := by
  have hsame : signedGrants (log ++ [x]) = signedGrants log := by
    rw [signedGrants_concat, hx, if_neg Bool.false_ne_true, List.append_nil]
  exact ⟨h.setting, h.policy, hsame ▸ h.recent, hsame ▸ h.paced⟩

theorem Listing.signed (h : Listing log s) {x : Taken DeviceUserOpSigner OpCall (Except ChainError Bytes)}
    (hx : signsGrant x = true) (hfew : recently UInt64.toNat 600 x.input.now.toNat (signedGrants log) < 5) :
    Listing (log ++ [x]) { s with recent := s.recent ++ [x.input.now] } := by
  have hmore : signedGrants (log ++ [x]) = signedGrants log ++ [x.input.now] := by
    rw [signedGrants_concat, hx, if_pos rfl]
  refine ⟨h.setting, h.policy, ?_, ?_⟩
  · rw [hmore, h.recent]
  · rw [hmore]
    exact paced_concat.mpr ⟨h.paced, hfew⟩

-- A write that is no approval is signed whenever it comes.
theorem Listing.other (h : Listing log s) (hother : ∀ fileId permission, c.about ≠ .grant fileId permission) :
    Listing (log ++ [taken (DeviceUserOpSigner.step C k) s c]) (DeviceUserOpSigner.step C k s c).2 ∧
      Signs log (taken (DeviceUserOpSigner.step C k) s c) := by
  have hquiet : (s.asks c.about c.now).2 = .notRequired ∧ s.noted c.about c.now = s ∧
      signsGrant (taken (DeviceUserOpSigner.step C k) s c) = false := by
    cases habout : c.about with
    | grant fileId permission => exact absurd habout (hother fileId permission)
    | register fileId => exact ⟨h.setting, rfl, by simp [signsGrant, taken, habout]⟩
    | bumpVersion fileId => exact ⟨rfl, rfl, by simp [signsGrant, taken, habout]⟩
    | revoke fileId => exact ⟨h.setting, rfl, by simp [signsGrant, taken, habout]⟩
  obtain ⟨hasks, hnoted, hgrant⟩ := hquiet
  obtain ⟨hok, hnext⟩ := @step_quiet C k s c hasks
  rw [hnext, hnoted]
  exact ⟨h.unsigned hgrant, iff_of_true hok fun fileId permission habout =>
    absurd habout (hother fileId permission)⟩

theorem Listing.step (h : Listing log s) (hk : k.osConfirmation = false)
    (horder : InOrder log (taken (DeviceUserOpSigner.step C k) s c)) :
    Listing (log ++ [taken (DeviceUserOpSigner.step C k) s c]) (DeviceUserOpSigner.step C k s c).2 ∧
      Signs log (taken (DeviceUserOpSigner.step C k) s c) := by
  have htimes : ∀ t ∈ signedGrants log, t ≤ c.now := by
    intro t ht
    obtain ⟨x, hx, rfl⟩ := mem_signedGrants ht
    exact horder x hx
  cases habout : c.about with
  | register fileId => exact h.other fun _ _ => by simp [habout]
  | bumpVersion fileId => exact h.other fun _ _ => by simp [habout]
  | revoke fileId => exact h.other fun _ _ => by simp [habout]
  | grant fileId permission =>
      have hlisted : listed s.recent c.now = recently UInt64.toNat 600 c.now.toNat (signedGrants log) :=
        (congrArg (listed · c.now) h.recent).trans (listed_eq_recently htimes)
      have hfive := recently_le h.paced fun t ht => UInt64.le_iff_toNat_le.mp (htimes t ht)
      have hasks : (s.asks c.about c.now).2 = if permission ≠ 2 ∧
          recently UInt64.toNat 600 c.now.toNat (signedGrants log) < 5 then .notRequired
          else .osUserVerification := by
        simp only [asks, habout]
        rw [h.policy, h.setting]
        by_cases hedit : permission = 2
        · rw [if_pos hedit, required_edit, if_neg fun hboth => hboth.1 hedit]
        · rw [if_neg hedit, required_readOnly (by omega), hlisted]
          simp [hedit]
      by_cases hsigns : permission ≠ 2 ∧ recently UInt64.toNat 600 c.now.toNat (signedGrants log) < 5
      · rw [if_pos hsigns] at hasks
        obtain ⟨hok, hnext⟩ := @step_quiet C k s c hasks
        have hgrant : signsGrant (taken (DeviceUserOpSigner.step C k) s c) = true := by
          simp [signsGrant, taken, habout, hok]
        simp only [hnext, noted, habout]
        refine ⟨h.signed hgrant hsigns.2, iff_of_true hok fun fileId' permission' hsame => ?_⟩
        obtain ⟨-, rfl⟩ := Write.grant.inj (habout.symm.trans hsame)
        exact hsigns
      · rw [if_neg hsigns] at hasks
        obtain ⟨hok, hnext⟩ := @step_asking C k s c hk hasks
        have hgrant : signsGrant (taken (DeviceUserOpSigner.step C k) s c) = false := by
          simp [signsGrant, taken, habout, hok]
        rw [hnext]
        refine ⟨h.unsigned hgrant, iff_of_false ?_ fun hall => hsigns (hall fileId permission habout)⟩
        rw [taken, hok]
        exact Bool.false_ne_true

end Run

-- A device that is to ask nobody, with a key that cannot, for as long as its process runs and its clock
-- does not go back: whatever is no approval is signed at once, an approval to edit never is, and
-- any other approval just when fewer than five were signed in the ten minutes before. So no ten minutes
-- see more than five.
theorem silent_signer (C : Crates) (k : SoftwareDeviceKey) (hk : k.osConfirmation = false)
    (calls : List OpCall) (horder : Along InOrder (trace (step C k) calls (.new .notRequired))) :
    Along Signs (trace (step C k) calls (.new .notRequired)) ∧
    ∀ start : Nat, (signedGrants (trace (step C k) calls (.new .notRequired))).countP
      (fun t => start ≤ t.toNat ∧ t.toNat ≤ start + 600) ≤ 5 := by
  have hstart : Listing [] (.new .notRequired) := ⟨rfl, rfl, rfl, paced_nil⟩
  refine ⟨trace_along hstart (fun log s c h hin => h.step hk hin) calls horder, fun start => ?_⟩
  have hlisting := trace_induct_along hstart (fun log s c h hin => (h.step hk hin).1) calls horder
  exact hlisting.paced.countP_le start

namespace Reference

-- Six approvals and a version in the meantime.
def busy : List OpCall :=
  [⟨.replicate 32 1, .grant (.replicate 32 2) 1, 100⟩, ⟨.replicate 32 1, .grant (.replicate 32 2) 1, 101⟩,
    ⟨.replicate 32 1, .grant (.replicate 32 2) 1, 102⟩, ⟨.replicate 32 1, .grant (.replicate 32 2) 1, 103⟩,
    ⟨.replicate 32 1, .bumpVersion (.replicate 32 2), 104⟩,
    ⟨.replicate 32 1, .grant (.replicate 32 2) 1, 105⟩, ⟨.replicate 32 1, .grant (.replicate 32 2) 1, 106⟩]

theorem busy_silent : ((trace (step Auth.WebAuthn.Software.Reference.crates
    ⟨Auth.WebAuthn.Software.Reference.secret, false⟩) busy (.new .notRequired)).map fun x => x.output.isOk) =
      [true, true, true, true, true, true, false] ∧
    Along Signs (trace (step Auth.WebAuthn.Software.Reference.crates
      ⟨Auth.WebAuthn.Software.Reference.secret, false⟩) busy (.new .notRequired)) := by
  have hrun : ((trace (step Auth.WebAuthn.Software.Reference.crates
      ⟨Auth.WebAuthn.Software.Reference.secret, false⟩) busy (.new .notRequired)).map fun x => x.output.isOk) =
        [true, true, true, true, true, true, false] ∧
      AlongFrom InOrder [] (trace (step Auth.WebAuthn.Software.Reference.crates
        ⟨Auth.WebAuthn.Software.Reference.secret, false⟩) busy (.new .notRequired)) := by
    decide +kernel
  exact ⟨hrun.1, (silent_signer _ _ rfl busy hrun.2.along).1⟩

end Reference

end Zbacs.Agent.DeviceUserOpSigner
