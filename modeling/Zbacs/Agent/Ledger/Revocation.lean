import Zbacs.Agent.Ledger.Invariant

namespace Zbacs.Agent.Ledger

open Zbacs.Lib

-- Whether a revocation stays, whatever is written later.

def markedBy (grantId : String) (x : Turned) : Option UInt64 := match x.input.op, x.output with
  | .markRevoked id now _, .ok _ => if id = grantId then some now else none
  | _, _ => none

-- When the approval was pulled back first.
def firstMarked (grantId : String) (log : List Turned) : Option UInt64 :=
  (log.filterMap (markedBy grantId)).head?

-- What the ledger says of an approval that was pulled back.
def PulledBack (grantId : String) (t : UInt64) (l : Ledger) : Prop :=
  ∃ g, l.grant .sound grantId = some g ∧ g.revokedAt = some t ∧ ∀ now, g.isActive now = false

-- An approval that is pulled back stays so, with the first time.
def Sticks (grantId : String) (log : List Turned) : Prop :=
  Along (fun pre x => ∀ t, firstMarked grantId (pre ++ [x]) = some t → PulledBack grantId t x.after) log

-- Nothing writes an approval that was pulled back as one that was not, or was at another time: it
-- is not recorded again, and was not recorded so before.
def NotRewritten (grantId : String) (log : List Turned) : Prop :=
  Along (fun pre x => (∀ g t, x.input = ⟨.sound, .recordGrant g⟩ → g.grantId = grantId →
      firstMarked grantId pre = some t → g.revokedAt = some t) ∧
    ∀ g t revokeTx, x.input = ⟨.sound, .markRevoked grantId t revokeTx⟩ →
      firstMarked grantId pre = none → x.before.grants.lookup grantId = some g →
      g.revokedAt = none ∨ g.revokedAt = some t) log

section Step

variable {l : Ledger} {call : LedgerCall} {grantId : String} {t : UInt64} {log : List Turned}

theorem firstMarked_concat (log : List Turned) (x : Turned) :
    firstMarked grantId (log ++ [x]) = (firstMarked grantId log).or (markedBy grantId x) := by
  rw [firstMarked, List.filterMap_append, List.head?_append]
  cases h : markedBy grantId x with
  | none => rw [List.filterMap_cons_none h]; rfl
  | some t => rw [List.filterMap_cons_some h]; rfl

theorem pulledBack_iff : PulledBack grantId t l ↔
    ∃ g, l.grants.lookup grantId = some g ∧ g.revokedAt = some t := by
  constructor
  · rintro ⟨g, hg, hrevoked, -⟩
    exact ⟨g, hg, hrevoked⟩
  · rintro ⟨g, hg, hrevoked⟩
    exact ⟨g, hg, hrevoked, fun now => by simp [Grant.isActive, hrevoked]⟩

theorem markedBy_turned (h : markedBy grantId (taken step l call) = some t) :
    ∃ revokeTx old, call = ⟨.sound, .markRevoked grantId t revokeTx⟩ ∧
      l.grants.lookup grantId = some old ∧ (taken step l call).after.grants.lookup grantId =
        some { old with
          revokedAt := old.revokedAt.or (some t), revokeTx := revokeTx.or old.revokeTx } := by
  obtain ⟨io, op⟩ := call
  obtain ⟨e, hout, -⟩ | ⟨out, rfl, hout, hdoes⟩ := turned_cases l ⟨io, op⟩
  · rw [markedBy, hout] at h
    split at h
    · rename_i hok
      cases hok
    · cases h
  · rw [markedBy, hout] at h
    generalize (taken step l ⟨.sound, op⟩).after = l' at hdoes
    cases hdoes with
    | @revoked id now revokeTx old _ hold =>
        simp only [taken] at h
        split_ifs at h with hid
        cases h
        subst hid
        refine ⟨revokeTx, old, rfl, hold, ?_⟩
        rw [lookup_putGrant, if_pos (l.grantKeyed _ _ hold).symm]
    | recorded | advanced | granted | registered | merged | deferred | cleared | numbered => cases h

-- What a turn that is no marking of it leaves of an approval.
theorem lookup_turned {g : Grant} (hg : l.grants.lookup grantId = some g)
    (hmarked : markedBy grantId (taken step l call) = none) :
    (taken step l call).after.grants.lookup grantId = some g ∨
      ∃ g', call = ⟨.sound, .recordGrant g'⟩ ∧ g'.grantId = grantId ∧
        (taken step l call).after.grants.lookup grantId = some g' := by
  obtain ⟨io, op⟩ := call
  obtain ⟨e, -, hsame⟩ | ⟨out, rfl, hout, hdoes⟩ := turned_cases l ⟨io, op⟩
  · exact .inl (by rw [hsame, hg])
  · rw [markedBy, hout] at hmarked
    generalize (taken step l ⟨.sound, op⟩).after = l' at hdoes
    cases hdoes with
    | granted g' =>
        rw [lookup_putGrant]
        split_ifs with hid
        · exact .inr ⟨g', rfl, hid.symm, rfl⟩
        · exact .inl hg
    | @revoked id now revokeTx old _ hold =>
        simp only [taken] at hmarked
        split_ifs at hmarked with hid
        have hkey : old.grantId = id := l.grantKeyed _ _ hold
        rw [lookup_putGrant, if_neg fun heq => hid (heq.trans hkey).symm]
        exact .inl hg
    | recorded | advanced | registered | merged | deferred | cleared | numbered => exact .inl hg

end Step

section Run

variable {grantId : String}

theorem NotRewritten.sticks {calls : List LedgerCall}
    (h : NotRewritten grantId (trace step calls .empty)) : Sticks grantId (trace step calls .empty) := by
  refine @trace_along _ _ _ step _ _
    (fun log l => ∀ t, firstMarked grantId log = some t → PulledBack grantId t l) .empty
    (fun _ h => absurd h (Option.some_ne_none _).symm) (fun log l call hinv hok => ?_) calls h
  suffices hnext : ∀ t, firstMarked grantId (log ++ [taken step l call]) = some t →
      PulledBack grantId t (taken step l call).after from ⟨hnext, hnext⟩
  intro t ht
  rw [firstMarked_concat] at ht
  rw [pulledBack_iff]
  cases hfirst : firstMarked grantId log with
  | none =>
      rw [hfirst] at ht
      obtain ⟨revokeTx, old, rfl, hold, hafter⟩ := markedBy_turned ht
      refine ⟨_, hafter, ?_⟩
      rcases hok.2 old t revokeTx rfl hfirst hold with hnone | hsame
      · simp [hnone]
      · simp [hsame]
  | some t₀ =>
      obtain rfl : t₀ = t := by simpa [hfirst] using ht
      obtain ⟨g, hg, hrevoked⟩ := pulledBack_iff.mp (hinv _ hfirst)
      cases hmarked : markedBy grantId (taken step l call) with
      | none =>
          rcases lookup_turned hg hmarked with hsame | ⟨g', rfl, hid, hafter⟩
          · exact ⟨g, hsame, hrevoked⟩
          · exact ⟨g', hafter, hok.1 g' _ rfl hid hfirst⟩
      | some t' =>
          obtain ⟨revokeTx, old, rfl, hold, hafter⟩ := markedBy_turned hmarked
          cases hg.symm.trans hold
          exact ⟨_, hafter, by simp [hrevoked]⟩

theorem Sticks.notRewritten {calls : List LedgerCall} (h : Sticks grantId (trace step calls .empty)) :
    NotRewritten grantId (trace step calls .empty) := by
  intro pre x post hlog
  have hx := h pre x post hlog
  obtain ⟨before, call, after, -, -, rfl, -⟩ := trace_eq_append_cons hlog
  generalize final step before .empty = l at hx
  refine ⟨fun g t hinput hid hfirst => ?_, fun g t revokeTx hinput hfirst hg => ?_⟩
  · obtain rfl : call = _ := hinput
    obtain ⟨g', hg', hrevoked⟩ := pulledBack_iff.mp (hx t (by rw [firstMarked_concat, hfirst]; rfl))
    have hafter : (taken step l ⟨.sound, .recordGrant g⟩).after.grants.lookup grantId = some g := by
      change (l.putGrant g).grants.lookup grantId = some g
      rw [lookup_putGrant, if_pos hid.symm]
    cases hafter.symm.trans hg'
    exact hrevoked
  · obtain rfl : call = _ := hinput
    have hok : markRevoked .sound grantId t revokeTx l = (.ok _, _) :=
      markRevoked_eq_ok.mpr ⟨rfl, g, hg, rfl, rfl⟩
    have hmarked : markedBy grantId (taken step l ⟨.sound, .markRevoked grantId t revokeTx⟩) = some t := by
      simp only [markedBy, taken, step, hok, Prod.map, Except.map, if_true]
    obtain ⟨revokeTx', old, -, hold, hafter⟩ := markedBy_turned hmarked
    obtain ⟨g', hg', hrevoked⟩ := pulledBack_iff.mp (hx t (by rw [firstMarked_concat, hfirst, hmarked]; rfl))
    cases hafter.symm.trans hg'
    cases hold.symm.trans hg
    cases hg : g.revokedAt with
    | none => exact .inl rfl
    | some t' =>
        right
        simpa [hg] using hrevoked

-- A revocation stays exactly as long as the approval is not recorded again.
theorem sticks_iff (grantId : String) (calls : List LedgerCall) :
    Sticks grantId (trace step calls .empty) ↔ NotRewritten grantId (trace step calls .empty) :=
  ⟨Sticks.notRewritten, NotRewritten.sticks⟩

-- An approval as `answer` records it.
def givenTwice : Grant :=
  { grantId := "02"
    fid := "01"
    fileName := "file-1.docx"
    permission := .readOnly
    expiry := 1000
    grantedAt := 102
    revokedAt := none
    txHash := none
    revokeTx := none }

def recordedAgain : List LedgerCall :=
  [⟨.sound, .recordGrant givenTwice⟩, ⟨.sound, .markRevoked "02" 300 none⟩,
    ⟨.sound, .recordGrant givenTwice⟩]

theorem not_sticks : ¬Sticks "02" (trace step recordedAgain .empty) := by
  intro h
  have hlast := h.notRewritten (trace step (recordedAgain.take 2) .empty) _ [] rfl
  have hrevoked := hlast.1 givenTwice 300 rfl rfl rfl
  cases hrevoked

end Run

end Zbacs.Agent.Ledger
