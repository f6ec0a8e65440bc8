import Zbacs.Agent.Bursts
import Zbacs.Lib.Window

namespace Zbacs.Agent

open Zbacs.Lib Zbacs.Core

-- How many signatures are made in ten minutes without a question.

abbrev TapLog := List (Taken Taps TapTurn (List ApprovalSignature))

def signatures (log : TapLog) : List ApprovalSignature := log.flatMap (·.output)

def ApprovalSignature.unverified (sig : ApprovalSignature) : Bool :=
  sig.permission ≠ .edit ∧ sig.confirmation = .notRequired

def unverified (log : TapLog) : List ApprovalSignature := (signatures log).filter (·.unverified)

structure BurstRule (log : TapLog) : Prop where
  readOnly : ∀ start : Nat, (unverified log).countP (fun sig =>
    start ≤ sig.time.toNat ∧ sig.time.toNat ≤ start + 600) ≤ 5
  edit : ∀ sig ∈ signatures log, sig.permission = .edit → sig.confirmation = .osUserVerification

-- The signatures without a question of the last ten minutes.
def recentlyMade (now : UInt64) (log : TapLog) : Nat :=
  recently (fun sig : ApprovalSignature => sig.time.toNat) 600 now.toNat (unverified log)

-- What the rule counts of a list.
def listed (recent : List UInt64) (now : UInt64) : Nat :=
  (recent.filter fun t => saturatingSub now 600 ≤ t ∧ t ≤ now).length

namespace Approving

-- What a call has worked out and not yet signed under.
def worked (a : Approving) : Option Confirmation := match a.stage with
  | .signing confirmation | .signingOp _ _ confirmation => some confirmation
  | _ => none

-- About to sign without a question.
def standing (a : Approving) : Bool := a.decision ≠ .edit ∧ a.worked = some .notRequired

-- The list and the time by which the next step works out a confirmation.
def judging (a : Approving) (goes : Bool) (s : TapState) : Option (List UInt64 × UInt64) :=
  match a.stage with
  | .numbering recent none now => if goes then some (recent, now) else none
  | .asked link now => some (s.recentOf link, now)
  | _ => none

-- The time a call has read and not yet used.
def clock (a : Approving) : Option UInt64 := match a.stage with
  | .numbering _ _ now | .asked _ now => some now
  | _ => none

end Approving

-- The list a call goes by misses none of those signatures, nor any that another call is about to make.
def Noted (log : TapLog) (x : Taken Taps TapTurn (List ApprovalSignature)) : Prop :=
  match x.input with
  | .call (.resume index goes) => ∀ a ∈ x.before.threads[index]?, a.decision ≠ .edit →
      ∀ judged ∈ a.judging goes x.before.shared,
        recentlyMade judged.2 log + x.before.threads.countP Approving.standing ≤ listed judged.1 judged.2 ∧
          listed judged.1 judged.2 < 2 ^ 32
  | _ => True

instance (log : TapLog) (x : Taken Taps TapTurn (List ApprovalSignature)) : Decidable (Noted log x) := by
  unfold Noted
  split <;> infer_instance

section Step

variable {a : Approving} {recent : List UInt64} {now : UInt64}

theorem opPermission_eq_edit : a.opPermission = .edit ↔ a.decision = .edit := by
  obtain ⟨decision, stage⟩ := a
  cases decision <;> simp [Approving.opPermission, DecisionArg.permission, Permission.toByte]

theorem permission_eq_edit {decision : DecisionArg} : decision.permission = .edit ↔ decision = .edit := by
  cases decision <;> simp [DecisionArg.permission]

theorem required_edit {recent : List UInt64} {now : UInt64} :
    ConfirmationPolicy.default.required .edit .notRequired recent now = .osUserVerification := by
  simp [ConfirmationPolicy.required, ConfirmationPolicy.default]

-- With no question, fewer than five were counted.
theorem listed_lt {permission : Permission}
    (h : ConfirmationPolicy.default.required permission .notRequired recent now = .notRequired)
    (hfits : listed recent now < 2 ^ 32) : listed recent now < 5 := by
  rw [ConfirmationPolicy.required, if_neg (by decide)] at h
  split_ifs at h
  change (if 5 ≤ UInt32.ofNat (listed recent now) then Confirmation.osUserVerification else .notRequired) =
    .notRequired at h
  split_ifs at h with hcount
  rw [UInt32.le_iff_toNat_le, UInt32.toNat_ofNat_of_lt' hfits] at hcount
  exact Nat.lt_of_not_le hcount

-- A step of a call works out a confirmation, or signs under the one it has, or does neither.
theorem run_cases (goes : Bool) (s : TapState) (a : Approving) :
    (a.run goes s).2.2.now = s.now ∧ (a.run goes s).2.1.decision = a.decision ∧
      ((a.run goes s).1 = [] ∧ (a.run goes s).2.1.worked = none ∨
        (∃ recent now permission, a.judging goes s = some (recent, now) ∧ (a.run goes s).1 = [] ∧
          (permission = .edit ↔ a.decision = .edit) ∧ (a.run goes s).2.1.worked =
            some (ConfirmationPolicy.default.required permission .notRequired recent now)) ∨
        ∃ permission confirmation, a.worked = some confirmation ∧
          (permission = .edit ↔ a.decision = .edit) ∧ (a.run goes s).2.1.worked = none ∧
            (a.run goes s).1 = [⟨s.now, permission, confirmation⟩]) := by
  obtain ⟨decision, stage⟩ := a
  cases stage with
  | copied | notingOp | noting | ended => exact ⟨rfl, rfl, .inl ⟨rfl, rfl⟩⟩
  | called | submitting | submitted | sending =>
      cases goes <;> exact ⟨rfl, rfl, .inl ⟨rfl, rfl⟩⟩
  | linked recent link =>
      rw [Approving.run]
      dsimp only
      split_ifs <;> exact ⟨rfl, rfl, .inl ⟨rfl, rfl⟩⟩
  | wrapping link =>
      rcases goes with - | - <;> rcases link with - | link <;> exact ⟨rfl, rfl, .inl ⟨rfl, rfl⟩⟩
  | numbering recent link now =>
      rcases goes with - | - <;> rcases link with - | link
      case true.none =>
        exact ⟨rfl, rfl, .inr (.inl ⟨recent, now, decision.permission, rfl, rfl, permission_eq_edit, rfl⟩)⟩
      all_goals exact ⟨rfl, rfl, .inl ⟨rfl, rfl⟩⟩
  | asked link now =>
      exact ⟨rfl, rfl, .inr (.inl ⟨s.recentOf link, now, _, rfl, rfl, opPermission_eq_edit, rfl⟩)⟩
  | signing confirmation =>
      cases goes with
      | false => exact ⟨rfl, rfl, .inl ⟨rfl, rfl⟩⟩
      | true => exact ⟨rfl, rfl, .inr (.inr ⟨_, confirmation, rfl, permission_eq_edit, rfl, rfl⟩)⟩
  | signingOp link now confirmation =>
      cases goes with
      | false => exact ⟨rfl, rfl, .inl ⟨rfl, rfl⟩⟩
      | true => exact ⟨rfl, rfl, .inr (.inr ⟨_, confirmation, rfl, opPermission_eq_edit, rfl, rfl⟩)⟩

theorem clock_of_judging {goes : Bool} {s : TapState} (h : a.judging goes s = some (recent, now)) :
    a.clock = some now ∧ a.worked = none := by
  obtain ⟨decision, stage⟩ := a
  cases stage with
  | numbering recent' link now' =>
      rcases goes with - | - <;> rcases link with - | link <;> simp_all [Approving.judging, Approving.clock,
        Approving.worked]
  | _ => simp_all [Approving.judging, Approving.clock, Approving.worked]

-- The clock is read in the step itself.
theorem clock_run {goes : Bool} {s : TapState} (h : (a.run goes s).2.1.clock = some now) : now = s.now := by
  obtain ⟨decision, stage⟩ := a
  cases stage with
  | linked recent link =>
      simp only [Approving.run, Approving.goTo] at h
      split_ifs at h
      · exact (Option.some.inj h).symm
      · cases h
  | submitting link =>
      cases goes with
      | false => cases h
      | true => exact (Option.some.inj h).symm
  | numbering recent link now' =>
      rcases goes with - | - <;> rcases link with - | link <;> cases h
  | wrapping link =>
      rcases goes with - | - <;> rcases link with - | link <;> cases h
  | called | submitted | sending | signing | signingOp => cases goes <;> cases h
  | copied | notingOp | noting | ended | asked => cases h

end Step

-- A call goes on, or nothing is signed and no call comes nearer to it.
theorem step_cases (s : Taps) (turn : TapTurn) :
    ((s.step turn).1 = [] ∧ s.shared.now ≤ (s.step turn).2.shared.now ∧
      (∀ a ∈ (s.step turn).2.threads, a ∈ s.threads ∨ a.stage = .called) ∧
      (s.step turn).2.threads.countP Approving.standing = s.threads.countP Approving.standing) ∨
      ∃ index goes a, turn = .call (.resume index goes) ∧ s.threads[index]? = some a ∧
        s.step turn = ((a.run goes s.shared).1,
          ⟨(a.run goes s.shared).2.2, s.threads.set index (a.run goes s.shared).2.1⟩) := by
  cases turn with
  | wait time =>
      refine .inl ⟨rfl, ?_, fun a ha => .inl ha, rfl⟩
      change s.shared.now ≤ if s.shared.now ≤ time then time else s.shared.now
      split_ifs with htime
      · exact htime
      · exact UInt64.le_refl _
  | connect smart => exact .inl ⟨rfl, UInt64.le_refl _, fun a ha => .inl ha, rfl⟩
  | call turn =>
      cases turn with
      | start decision =>
          refine .inl ⟨rfl, UInt64.le_refl _, fun a ha => ?_, ?_⟩
          · obtain hold | hnew := List.mem_append.mp ha
            · exact .inl hold
            · obtain rfl := List.mem_singleton.mp hnew
              exact .inr rfl
          · change (s.threads ++ [Approving.called decision]).countP Approving.standing = _
            rw [List.countP_append]
            simp [Approving.standing, Approving.worked, Approving.called]
      | resume index goes =>
          cases ha : s.threads[index]? with
          | none =>
              have hstep : s.step (.call (.resume index goes)) = ([], s) := by
                simp only [Taps.step, Threads.turn, ha]
              rw [hstep]
              exact .inl ⟨rfl, UInt64.le_refl _, fun a ha => .inl ha, rfl⟩
          | some a => exact .inr ⟨index, goes, a, rfl, ha, by rw [Taps.step, Threads.turn_resume ha]⟩

section Log

variable {log : TapLog} {x : Taken Taps TapTurn (List ApprovalSignature)}

theorem signatures_concat : signatures (log ++ [x]) = signatures log ++ x.output := by
  rw [signatures, List.flatMap_append, List.flatMap_singleton, signatures]

theorem unverified_concat :
    unverified (log ++ [x]) = unverified log ++ x.output.filter (·.unverified) := by
  rw [unverified, signatures_concat, List.filter_append, unverified]

end Log

section Edit

variable {log : TapLog} {s : Taps} {x : Taken Taps TapTurn (List ApprovalSignature)}

-- An edit is always asked for.
structure EditsAsked (log : TapLog) (s : Taps) : Prop where
  worked : ∀ a ∈ s.threads, a.decision = .edit → ∀ confirmation, a.worked = some confirmation →
    confirmation = .osUserVerification
  signed : ∀ sig ∈ signatures log, sig.permission = .edit → sig.confirmation = .osUserVerification

theorem EditsAsked.unsigned (h : EditsAsked log s) {s' : Taps} (hout : x.output = [])
    (hthreads : ∀ a ∈ s'.threads, a ∈ s.threads ∨ a.worked = none) : EditsAsked (log ++ [x]) s' where
  worked a ha hedit confirmation hworked := by
    obtain hold | hnone := hthreads a ha
    · exact h.worked a hold hedit confirmation hworked
    · cases hnone.symm.trans hworked
  signed := by
    rw [signatures_concat, hout, List.append_nil]
    exact h.signed

theorem EditsAsked.resume (h : EditsAsked log s) {index : Nat} {goes : Bool} {a : Approving}
    (ha : s.threads[index]? = some a) (hout : x.output = (a.run goes s.shared).1) :
    EditsAsked (log ++ [x]) ⟨(a.run goes s.shared).2.2, s.threads.set index (a.run goes s.shared).2.1⟩ := by
  have hmem : a ∈ s.threads := List.mem_of_getElem? ha
  obtain ⟨-, hdecision, hcases⟩ := run_cases goes s.shared a
  generalize a.run goes s.shared = ran at *
  obtain ⟨out, a', shared⟩ := ran
  dsimp only at *
  refine ⟨fun b hb hedit c hc => ?_, fun sig hsig hedit => ?_⟩
  · obtain hb | rfl := List.mem_or_eq_of_mem_set hb
    · exact h.worked b hb hedit c hc
    · obtain ⟨-, hnone⟩ | ⟨recent, now, permission, -, -, hiff, hworked⟩ | ⟨permission, confirmation, -, -,
        hnone, -⟩ := hcases
      · cases hnone.symm.trans hc
      · rw [hiff.mpr (hdecision ▸ hedit), required_edit] at hworked
        exact (Option.some.inj (hworked.symm.trans hc)).symm
      · cases hnone.symm.trans hc
  · rw [signatures_concat, hout] at hsig
    obtain hold | hnew := List.mem_append.mp hsig
    · exact h.signed sig hold hedit
    · obtain ⟨rfl, -⟩ | ⟨recent, now, permission, -, rfl, -⟩ | ⟨permission, confirmation, hworked, hiff, -,
        rfl⟩ := hcases
      · cases hnew
      · cases hnew
      · obtain rfl := List.mem_singleton.mp hnew
        exact h.worked a hmem (hiff.mp hedit) confirmation hworked

theorem EditsAsked.turn (h : EditsAsked log s) (turn : TapTurn) :
    EditsAsked (log ++ [taken Taps.step s turn]) (s.step turn).2 := by
  obtain ⟨hout, -, hthreads, -⟩ | ⟨index, goes, a, -, ha, hstep⟩ := step_cases s turn
  · refine h.unsigned hout fun a hmem => (hthreads a hmem).imp_right fun hcalled => ?_
    simp [Approving.worked, hcalled]
  · rw [hstep]
    exact h.resume ha (congrArg Prod.fst hstep)

end Edit

-- Where the rule is kept: five is never passed, with the signatures that are still to be made.
structure InTime (log : TapLog) (s : Taps) : Prop where
  clocks : ∀ a ∈ s.threads, ∀ now, a.clock = some now → now ≤ s.shared.now
  made : recentlyMade s.shared.now log + s.threads.countP Approving.standing ≤ 5
  paced : Paced (fun sig : ApprovalSignature => sig.time.toNat) 600 5 (unverified log)

theorem inTime_start (now : UInt64) : InTime [] (Taps.start now) where
  clocks a ha := by cases ha
  made := Nat.zero_le _
  paced := paced_nil

section Run

variable {log : TapLog} {s : Taps} {x : Taken Taps TapTurn (List ApprovalSignature)}

-- A turn in which nothing is signed.
theorem InTime.unsigned (h : InTime log s) {s' : Taps} (hout : x.output = [])
    (hclocks : ∀ a ∈ s'.threads, ∀ now, a.clock = some now → now ≤ s'.shared.now)
    (hmade : recentlyMade s'.shared.now log + s'.threads.countP Approving.standing ≤ 5) :
    InTime (log ++ [x]) s' := by
  have hsame : unverified (log ++ [x]) = unverified log := by
    rw [unverified_concat, hout, List.filter_nil, List.append_nil]
  refine ⟨hclocks, ?_, ?_⟩
  · rw [recentlyMade, hsame]
    exact hmade
  · rw [hsame]
    exact h.paced

-- A turn in which a call signs: it stood before, if the signature is one that counts.
theorem InTime.signing (h : InTime log s) {s' : Taps} {sig : ApprovalSignature} (hout : x.output = [sig])
    (htime : sig.time = s.shared.now) (hnow : s'.shared.now = s.shared.now)
    (hclocks : ∀ a ∈ s'.threads, ∀ now, a.clock = some now → now ≤ s'.shared.now)
    (hcount : s'.threads.countP Approving.standing + (if sig.unverified then 1 else 0) =
      s.threads.countP Approving.standing) : InTime (log ++ [x]) s' := by
  have hmade := h.made
  have hmore : unverified (log ++ [x]) = unverified log ++ if sig.unverified then [sig] else [] := by
    rw [unverified_concat, hout, List.filter_singleton, Bool.cond_eq_ite]
  refine ⟨hclocks, ?_, ?_⟩
  · have hone : recently (fun sig : ApprovalSignature => sig.time.toNat) 600 s.shared.now.toNat
        (if sig.unverified then [sig] else []) ≤ if sig.unverified then 1 else 0 := by
      split_ifs
      · exact List.countP_le_length
      · exact le_refl _
    rw [recentlyMade, hmore, recently_append, ← recentlyMade, hnow]
    omega
  · rw [hmore]
    split_ifs at hcount ⊢
    · refine paced_concat.mpr ⟨h.paced, ?_⟩
      rw [htime]
      change recentlyMade s.shared.now log < 5
      omega
    · rw [List.append_nil]
      exact h.paced

-- Time passes.
theorem recentlyMade_le {now now' : UInt64} (h : now ≤ now') : recentlyMade now' log ≤ recentlyMade now log :=
  recently_le_of_le (UInt64.le_iff_toNat_le.mp h) _

theorem standing_of_worked {a : Approving} (h : a.worked = none) : a.standing = false := by
  simp [Approving.standing, h]

-- A step of a call, with what it does to the counts.
theorem InTime.resume (h : InTime log s) {index : Nat} {goes : Bool} {a : Approving}
    (ha : s.threads[index]? = some a) (hinput : x.input = .call (.resume index goes)) (hbefore : x.before = s)
    (hout : x.output = (a.run goes s.shared).1) (hnoted : Noted log x) :
    InTime (log ++ [x]) ⟨(a.run goes s.shared).2.2, s.threads.set index (a.run goes s.shared).2.1⟩ := by
  have hcount : (s.threads.set index (a.run goes s.shared).2.1).countP Approving.standing + _ = _ :=
    countP_set_add Approving.standing ha
  have hmade := h.made
  have hclocks : ∀ b ∈ s.threads.set index (a.run goes s.shared).2.1, ∀ now, b.clock = some now →
      now ≤ s.shared.now := by
    intro b hb now hclock
    obtain hb | rfl := List.mem_or_eq_of_mem_set hb
    · exact h.clocks b hb now hclock
    · exact UInt64.le_of_eq (clock_run hclock)
  obtain ⟨hnow, hdecision, hcases⟩ := run_cases goes s.shared a
  generalize a.run goes s.shared = ran at *
  obtain ⟨out, a', shared⟩ := ran
  dsimp only at *
  subst hbefore
  rw [← hnow] at hclocks
  obtain ⟨rfl, hworked⟩ | ⟨recent, now, permission, hjudging, rfl, hedit, hworked⟩ |
    ⟨permission, confirmation, hworked, hedit, hdone, rfl⟩ := hcases
  · -- on the way, or over
    refine h.unsigned hout hclocks ?_
    simp only [standing_of_worked hworked, Bool.false_eq_true, if_false] at hcount
    rw [hnow]
    dsimp only
    omega
  · -- the confirmation is worked out
    obtain ⟨hclock, hnone⟩ := clock_of_judging hjudging
    refine h.unsigned hout hclocks ?_
    simp only [standing_of_worked hnone, Bool.false_eq_true, if_false] at hcount
    rw [hnow]
    dsimp only
    split_ifs at hcount with hstands
    · simp only [Approving.standing, Bool.decide_and, Bool.and_eq_true, decide_eq_true_eq, hworked,
        Option.some.injEq, hdecision] at hstands
      rw [Noted, hinput] at hnoted
      obtain ⟨hmiss, hfits⟩ := hnoted a ha hstands.1 (recent, now) hjudging
      have hlisted := listed_lt hstands.2 hfits
      have hlater := @recentlyMade_le log _ _ (h.clocks a (List.mem_of_getElem? ha) now hclock)
      dsimp only at hmiss
      omega
    · omega
  · -- the signature is made
    refine h.signing hout rfl hnow hclocks ?_
    have hunverified : (⟨x.before.shared.now, permission, confirmation⟩ : ApprovalSignature).unverified =
        a.standing := by
      simp [ApprovalSignature.unverified, Approving.standing, hworked, hedit]
    simp only [standing_of_worked hdone, Bool.false_eq_true, if_false] at hcount
    rw [hunverified]
    dsimp only
    omega

theorem InTime.turn (h : InTime log s) (turn : TapTurn) (hnoted : Noted log (taken Taps.step s turn)) :
    InTime (log ++ [taken Taps.step s turn]) (s.step turn).2 := by
  obtain ⟨hout, hnow, hthreads, hstanding⟩ | ⟨index, goes, a, rfl, ha, hstep⟩ := step_cases s turn
  · refine h.unsigned hout (fun a ha now hclock => ?_) ?_
    · obtain hold | hcalled := hthreads a ha
      · exact UInt64.le_trans (h.clocks a hold now hclock) hnow
      · simp [Approving.clock, hcalled] at hclock
    · rw [hstanding]
      exact (Nat.add_le_add_right (recentlyMade_le hnow) _).trans h.made
  · rw [congrArg Prod.snd hstep]
    exact h.resume ha rfl rfl (congrArg Prod.fst hstep) hnoted

-- Every edit is asked for, whatever the calls meet.
theorem edit_asked (now : UInt64) (turns : List TapTurn) :
    EditsAsked (trace Taps.step turns (.start now)) (final Taps.step turns (.start now)) :=
  trace_induct ⟨fun _ ha => absurd ha List.not_mem_nil, fun _ hsig => absurd hsig List.not_mem_nil⟩
    (fun _ _ turn h => h.turn turn) turns

-- The rest of the rule is kept where the lists miss nothing.
theorem burst_rule (now : UInt64) (turns : List TapTurn)
    (h : Along Noted (trace Taps.step turns (.start now))) :
    BurstRule (trace Taps.step turns (.start now)) where
  readOnly := by
    have hin : InTime (trace Taps.step turns (.start now)) (final Taps.step turns (.start now)) :=
      trace_induct_along (inTime_start now) (fun _ _ turn hin hnoted => hin.turn turn hnoted) turns h
    exact hin.paced.countP_le
  edit := (edit_asked now turns).signed

end Run

namespace Reference

def tapOf (index : Nat) (steps : List Bool) : List TapTurn :=
  .call (.start .readOnly) :: steps.map fun goes => .call (.resume index goes)

-- Two taps one after the other, a minute apart, and both answers go out.
def quietTaps : List TapTurn :=
  tapOf 0 (List.replicate 8 true) ++ .wait 160 :: tapOf 1 (List.replicate 8 true)

theorem quietTaps_noted : Along Noted (trace Taps.step quietTaps (.start 100)) := AlongFrom.along (by decide)

theorem burst_rule_quiet : (signatures (trace Taps.step quietTaps (.start 100))).length = 2 ∧
    BurstRule (trace Taps.step quietTaps (.start 100)) :=
  ⟨by decide, burst_rule 100 quietTaps quietTaps_noted⟩

-- Six taps at once, and each copies the list before any of the others is noted.
def burst : List TapTurn :=
  List.replicate 6 (.call (.start .readOnly)) ++
    (List.range 6).flatMap fun index => List.replicate 5 (.call (.resume index true))

theorem not_burst_rule : ¬ ∀ now turns, BurstRule (trace Taps.step turns (.start now)) := by
  intro h
  have hfive := (h 100 burst).readOnly 0
  revert hfive
  decide

end Reference

end Zbacs.Agent
