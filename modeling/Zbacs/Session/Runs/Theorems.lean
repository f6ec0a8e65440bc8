import Zbacs.Session.Runs

namespace Zbacs.Session

open Zbacs.Core Zbacs.Lib

section Feed

variable {s : Zbacs.Session} {call : Call}

-- The assignments come to what `apply` says in one piece; with an error there were none.
theorem feed_eq (s : Zbacs.Session) (call : Call) :
    feed s call = match s.apply call.event call.now with
      | .error e => (.error e, s)
      | .ok (s', effects) => (.ok effects, s') := by
  obtain ⟨event, now⟩ := call
  rcases s with ⟨state, permission, notBefore, expiry, maxOpens, opens, version, dirty⟩
  cases event with
  | granted p nb ex mo =>
      cases state with
      | requested =>
          rw [Session.apply_requested rfl]
          change (ite (p = .deny) _ _ : Applying (List Effect)) _ = _
          split_ifs <;> rfl
      | _ => rfl
  | opened =>
      cases state with
      | granted =>
          rw [Session.apply_open rfl]
          change (ite (maxOpens ≠ 0 ∧ maxOpens ≤ opens) _ _ : Applying (List Effect)) _ = _
          split_ifs <;> rfl
      | _ => rfl
  | saved =>
      cases state with
      | opened =>
          rw [Session.apply_save rfl]
          change (ite (permission = some .edit) _ _ : Applying (List Effect)) _ = _
          split_ifs <;> rfl
      | _ => rfl
  | _ => cases state <;> rfl

theorem feed_terminal (h : s.state.isTerminal) : feed s call = (.error (.terminal s.state), s) := by
  rw [feed_eq, Session.apply_terminal h]

-- A call is refused and nothing changes, or it is one of the steps.
theorem feed_cases (s : Zbacs.Session) (call : Call) :
    (∃ e, feed s call = (.error e, s)) ∨
      ∃ s' effects, feed s call = (.ok effects, s') ∧ Step call.now s call.event s' effects := by
  rw [feed_eq]
  rcases happly : s.apply call.event call.now with e | ⟨s', effects⟩
  · exact .inl ⟨e, rfl⟩
  · exact .inr ⟨s', effects, rfl, Session.step_of_apply happly⟩

theorem feed_of_step {s' : Zbacs.Session} {effects : List Effect}
    (h : s.apply call.event call.now = .ok (s', effects)) : feed s call = (.ok effects, s') := by
  rw [feed_eq, h]

theorem trace_terminal (calls : List Call) (h : s.state.isTerminal) :
    (∀ x ∈ trace feed calls s, x.output = .error (.terminal s.state)) ∧ final feed calls s = s := by
  induction calls with
  | nil => exact ⟨fun x hx => absurd hx List.not_mem_nil, rfl⟩
  | cons call calls ih =>
      have hfeed : feed s call = _ := feed_terminal h
      simp only [trace, final, taken, hfeed, List.mem_cons, forall_eq_or_imp, true_and]
      exact ih

end Feed

-- What the record of a session says about where it is.
structure Kept (log : List Applied) (s : Zbacs.Session) : Prop where
  fresh : s.state = .requested →
    s.permission = none ∧ s.version = none ∧ s.opens = 0 ∧ ∀ x ∈ log, effectsOf x = []
  granted : s.state = .granted → ∃ x ∈ log, ∃ permission notBefore expiry maxOpens,
    x.input.event = .granted permission notBefore expiry maxOpens ∧ isTaken x = true ∧
      permission ≠ .deny ∧ s.permission = some permission
  edited : (s.version ≠ none ∨ s.state = .resealing ∨ ∃ x ∈ log, .reseal ∈ effectsOf x) →
    s.permission = some .edit
  launches : (log.flatMap effectsOf).count .launchViewer ≤
    if s.state = .requested ∨ s.state = .granted then 0 else 1
  budget : s.maxOpens ≠ 0 → s.opens ≤ s.maxOpens
  clean : s.dirty = true → s.state = .resealing ∨ s.state = .failed
  saved : s.state = .resealing → ∃ pre x post, log = pre ++ x :: post ∧ x.input.event = .saved ∧
    x.output = .ok [.reseal] ∧ x.before.permission = some .edit ∧ ∀ y ∈ post, isTaken y = false
  wiped : (∃ x ∈ log, .wipeWorkspace ∈ effectsOf x) → s.state.isTerminal = true

section Step

variable {now : UInt64} {s s' : Zbacs.Session} {event : Event} {effects : List Effect}

theorem Step.live (h : Step now s event s' effects) : s.state.isTerminal = false := by
  cases h with
  | revoked hlive | expired hlive | failed hlive => exact hlive
  | granted hstate | denied hstate | exhausted hstate | opened hstate | saved hstate
  | discarded hstate | resealed hstate | viewerExited hstate =>
      rw [hstate]
      rfl

-- Nothing goes back to the state before the grant.
theorem Step.ne_requested (h : Step now s event s' effects) : s'.state ≠ .requested := by
  cases h with
  | discarded hstate =>
      rw [hstate]
      decide
  | _ => simp

-- Only a grant leads to `Granted`, and only from the start.
theorem Step.of_granted (h : Step now s event s' effects) (hs' : s'.state = .granted) :
    s.state = .requested ∧ ∃ permission notBefore expiry maxOpens,
      event = .granted permission notBefore expiry maxOpens ∧ permission ≠ .deny ∧
        s'.permission = some permission := by
  cases h with
  | granted hstate hdeny => exact ⟨hstate, _, _, _, _, rfl, hdeny, rfl⟩
  | discarded hstate =>
      rw [hstate] at hs'
      cases hs'
  | _ => simp at hs'

theorem Step.of_resealing (h : Step now s event s' effects) (hs' : s'.state = .resealing) :
    event = .saved ∧ effects = [.reseal] ∧ s.permission = some .edit := by
  cases h with
  | saved _ hedit => exact ⟨rfl, rfl, hedit⟩
  | discarded hstate =>
      rw [hstate] at hs'
      cases hs'
  | _ => simp at hs'

-- Only a save that is kept asks for a new version, and only its end names one.
theorem Step.of_edit (h : Step now s event s' effects)
    (hs' : s'.version ≠ none ∨ s'.state = .resealing ∨ .reseal ∈ effects) :
    s.permission = some .edit ∨ s.version ≠ none ∨ s.state = .resealing := by
  cases h with
  | saved _ hedit => exact .inl hedit
  | resealed hstate => exact .inr (.inr hstate)
  | discarded hstate => exact .inr (.inl (by simpa [hstate] using hs'))
  | opened =>
      refine .inr (.inl ?_)
      by_cases hro : s.permission = some .readOnly <;> simpa [hro] using hs'
  | revoked | expired | failed =>
      refine .inr (.inl ?_)
      by_cases hplain : s.state.plaintextAllowed <;> simpa [Session.ending, hplain] using hs'
  | _ => exact .inr (.inl (by simpa using hs'))

theorem Step.permission_eq (h : Step now s event s' effects) (hs : s.state ≠ .requested) :
    s'.permission = s.permission := by
  cases h with
  | granted hstate => exact absurd hstate hs
  | _ => rfl

-- The viewer is started once, on the way out of `Granted`.
theorem Step.count_launch (h : Step now s event s' effects) :
    effects.count .launchViewer = if s.state = .granted ∧ s'.state = .opened then 1 else 0 := by
  cases h with
  | opened hstate =>
      by_cases hro : s.permission = some .readOnly <;> simp [hro, hstate]
  | revoked | expired | failed =>
      by_cases hplain : s.state.plaintextAllowed <;> simp [Session.ending, hplain]
  | granted hstate | denied hstate | exhausted hstate | saved hstate | discarded hstate
  | resealed hstate | viewerExited hstate => simp [hstate]

theorem Step.of_launch (h : Step now s event s' effects) (hlaunch : .launchViewer ∈ effects) :
    event = .opened ∧ s.state = .granted ∧ (s.maxOpens = 0 ∨ s.opens < s.maxOpens) ∧
      effects = (if s.permission = some .readOnly then [.markReadOnly] else []) ++
        [.launchViewer, .audit .opened] := by
  cases h with
  | opened hstate hbudget => exact ⟨rfl, hstate, hbudget, rfl⟩
  | revoked | expired | failed =>
      by_cases hplain : s.state.plaintextAllowed <;> simp [Session.ending, hplain] at hlaunch
  | _ => simp at hlaunch

theorem Step.of_resealed {version : UInt32} (h : Step now s (.resealed version) s' effects) :
    s.state = .resealing := by
  cases h with
  | resealed hstate => exact hstate

theorem Step.of_viewerExited (h : Step now s .viewerExited s' effects) :
    s.state = .opened ∧ s' = { s with state := .closed } := by
  cases h with
  | viewerExited hstate => exact ⟨hstate, rfl⟩

theorem Step.wipe_terminal (h : Step now s event s' effects)
    (hwipe : .wipeWorkspace ∈ effects) : s'.state.isTerminal = true := by
  cases h with
  | exhausted | viewerExited | revoked | expired | failed => rfl
  | opened => by_cases hro : s.permission = some .readOnly <;> simp [hro] at hwipe
  | _ => simp at hwipe

end Step

section Log

variable {log : List Applied} {x : Applied} {s : Zbacs.Session}

theorem effectsOf_error {e : TransitionError} (h : x.output = .error e) :
    effectsOf x = [] ∧ isTaken x = false := by
  simp [effectsOf, isTaken, h, Except.toOption]

theorem effectsOf_ok {effects : List Effect} (h : x.output = .ok effects) :
    effectsOf x = effects ∧ isTaken x = true := by
  simp [effectsOf, isTaken, h, Except.toOption]

-- Some call of a longer record asked for this.
theorem exists_effect_concat {effect : Effect} : (∃ y ∈ log ++ [x], effect ∈ effectsOf y) ↔
    (∃ y ∈ log, effect ∈ effectsOf y) ∨ effect ∈ effectsOf x := by
  simp [or_and_right, exists_or]

-- A refused call adds nothing.
theorem Kept.refused (h : Kept log s) (hx : effectsOf x = [] ∧ isTaken x = false) :
    Kept (log ++ [x]) s where
  fresh hs := by
    obtain ⟨hpermission, hversion, hopens, hlog⟩ := h.fresh hs
    refine ⟨hpermission, hversion, hopens, fun y hy => ?_⟩
    rcases List.mem_append.mp hy with hy | hy
    · exact hlog y hy
    · rw [List.mem_singleton.mp hy]
      exact hx.1
  granted hs := by
    obtain ⟨y, hy, hgrant⟩ := h.granted hs
    exact ⟨y, List.mem_append_left _ hy, hgrant⟩
  edited hs := by
    rw [exists_effect_concat, hx.1] at hs
    exact h.edited (by simpa using hs)
  launches := by
    rw [List.flatMap_append, List.flatMap_singleton, hx.1, List.append_nil]
    exact h.launches
  budget := h.budget
  clean := h.clean
  saved hs := by
    obtain ⟨pre, y, post, rfl, hevent, houtput, hedit, hpost⟩ := h.saved hs
    refine ⟨pre, y, post ++ [x], by simp, hevent, houtput, hedit, fun z hz => ?_⟩
    rcases List.mem_append.mp hz with hz | hz
    · exact hpost z hz
    · rw [List.mem_singleton.mp hz]
      exact hx.2
  wiped hs := by
    rw [exists_effect_concat, hx.1] at hs
    exact h.wiped (by simpa using hs)

theorem Kept.budget_step {now : UInt64} {s' : Zbacs.Session} {event : Event}
    {effects : List Effect} (h : Kept log s) (hstep : Step now s event s' effects)
    (hmax : s'.maxOpens ≠ 0) : s'.opens ≤ s'.maxOpens := by
  cases hstep with
  | granted hstate =>
      rw [show s.opens = 0 from (h.fresh hstate).2.2.1]
      exact UInt16.zero_le
  | opened _ hbudget =>
      have hlt : s.opens < s.maxOpens := hbudget.resolve_left hmax
      rw [UInt16.lt_iff_toNat_lt] at hlt
      have hbound := s.maxOpens.toNat_lt
      change s.opens + 1 ≤ s.maxOpens
      rw [UInt16.le_iff_toNat_le, UInt16.toNat_add, UInt16.toNat_one, Nat.mod_eq_of_lt (by omega)]
      omega
  | _ => exact h.budget hmax

theorem Kept.clean_step {now : UInt64} {s' : Zbacs.Session} {event : Event}
    {effects : List Effect} (h : Kept log s) (hstep : Step now s event s' effects)
    (hdirty : s'.dirty = true) : s'.state = .resealing ∨ s'.state = .failed := by
  cases hstep with
  | saved => exact .inl rfl
  | failed => exact .inr rfl
  | resealed | revoked | expired => cases hdirty
  | granted hstate | denied hstate | exhausted hstate | opened hstate | discarded hstate
  | viewerExited hstate =>
      have hclean := h.clean hdirty
      rw [hstate] at hclean
      simp at hclean

-- A call that is taken.
theorem Kept.taken {call : Call} {s' : Zbacs.Session} {effects : List Effect} (h : Kept log s)
    (hinput : x.input = call) (hbefore : x.before = s) (hx : x.output = .ok effects)
    (hstep : Step call.now s call.event s' effects) : Kept (log ++ [x]) s' where
  fresh hs := absurd hs hstep.ne_requested
  granted hs := by
    obtain ⟨-, permission, notBefore, expiry, maxOpens, hevent, hdeny, hpermission⟩ :=
      hstep.of_granted hs
    exact ⟨x, List.mem_concat_self, permission, notBefore, expiry, maxOpens, by rw [hinput, hevent],
      (effectsOf_ok hx).2, hdeny, hpermission⟩
  edited hs := by
    rw [exists_effect_concat, (effectsOf_ok hx).1] at hs
    have hedit : s.permission = some .edit := by
      by_cases hold : ∃ y ∈ log, .reseal ∈ effectsOf y
      · exact h.edited (.inr (.inr hold))
      · rw [or_iff_right hold] at hs
        rcases hstep.of_edit hs with hedit | hversion | hstate
        · exact hedit
        · exact h.edited (.inl hversion)
        · exact h.edited (.inr (.inl hstate))
    have htaken : s.state ≠ .requested := by
      intro hfresh
      rw [(h.fresh hfresh).1] at hedit
      cases hedit
    rw [hstep.permission_eq htaken, hedit]
  launches := by
    rw [List.flatMap_append, List.flatMap_singleton, List.count_append, (effectsOf_ok hx).1,
      hstep.count_launch]
    have hold := h.launches
    by_cases hgranted : s'.state = .granted
    · rw [if_pos (.inl (hstep.of_granted hgranted).1)] at hold
      simpa [hgranted] using hold
    · have hlate : ¬(s'.state = .requested ∨ s'.state = .granted) := by
        simp [hstep.ne_requested, hgranted]
      rw [if_neg hlate]
      by_cases hopens : s.state = .granted ∧ s'.state = .opened
      · rw [if_pos (.inr hopens.1)] at hold
        rw [if_pos hopens]
        omega
      · rw [if_neg hopens]
        split_ifs at hold <;> omega
  budget := h.budget_step hstep
  clean := h.clean_step hstep
  saved hs := by
    obtain ⟨hevent, rfl, hedit⟩ := hstep.of_resealing hs
    exact ⟨log, x, [], rfl, by rw [hinput, hevent], hx, by rw [hbefore, hedit], by simp⟩
  wiped hs := by
    rw [exists_effect_concat, (effectsOf_ok hx).1] at hs
    rcases hs with hold | hnew
    · have hended := h.wiped hold
      rw [hstep.live] at hended
      cases hended
    · exact hstep.wipe_terminal hnew

theorem kept_new : Kept [] Session.new where
  fresh _ := ⟨rfl, rfl, rfl, by simp⟩
  granted hs := by cases hs
  edited hs := by simp [Session.new] at hs
  launches := Nat.zero_le _
  budget hmax := absurd rfl hmax
  clean hs := by cases hs
  saved hs := by cases hs
  wiped hs := by simp at hs

theorem Kept.call (call : Call) (h : Kept log s) :
    Kept (log ++ [Lib.taken feed s call]) (feed s call).2 := by
  rcases feed_cases s call with ⟨e, hfeed⟩ | ⟨s', effects, hfeed, hstep⟩
  · rw [show (feed s call).2 = s by rw [hfeed]]
    exact h.refused (effectsOf_error (congrArg Prod.fst hfeed))
  · rw [show (feed s call).2 = s' by rw [hfeed]]
    exact h.taken rfl rfl (congrArg Prod.fst hfeed) hstep

-- In every run of a session.
theorem trace_kept (calls : List Call) :
    Kept (trace feed calls Session.new) (final feed calls Session.new) :=
  trace_induct kept_new (fun _ _ call h => h.call call) calls

end Log

-- A run of calls `log` that has led to `s`.
structure Safe (log : List Applied) (s : Zbacs.Session) : Prop where
  -- reading only produces no version
  readOnly : s.permission = some .readOnly →
    (∀ x ∈ log, .reseal ∉ effectsOf x) ∧ s.version = none
  -- the viewer is started from `Granted`, after a grant, and for reading only on a marked file
  launched : ∀ pre x post, log = pre ++ x :: post → .launchViewer ∈ effectsOf x →
    x.before.state = .granted ∧ ∃ y ∈ pre, ∃ permission notBefore expiry maxOpens,
      y.input.event = .granted permission notBefore expiry maxOpens ∧ isTaken y = true ∧
      (permission = .readOnly ∨ permission = .edit) ∧ x.before.permission = some permission ∧
      (permission = .readOnly → ∀ front back, effectsOf x = front ++ .launchViewer :: back →
        ∃ rest, front = rest ++ [.markReadOnly])
  once : (log.flatMap effectsOf).count .launchViewer ≤ 1
  budget : s.maxOpens ≠ 0 → s.opens ≤ s.maxOpens
  -- an error changes nothing
  refused : ∀ x ∈ log, ∀ e, x.output = .error e → x.after = x.before
  -- what has ended stays ended
  ended : ∀ pre x post, log = pre ++ x :: post → x.after.state.isTerminal →
    (∀ y ∈ post, y.output = .error (.terminal x.after.state)) ∧ s.state = x.after.state
  -- the viewer's exit closes a session without unsealed changes
  exited : ∀ x ∈ log, x.input.event = .viewerExited → isTaken x = true →
    x.after.state = .closed ∧ x.before.dirty = false ∧ x.after.dirty = false
  -- the last call taken before the end of a reseal is the save it belongs to
  resealed : ∀ pre x post version, log = pre ++ x :: post → x.input.event = .resealed version →
    isTaken x = true → ∃ front y back, pre = front ++ y :: back ∧ y.input.event = .saved ∧
      y.output = .ok [.reseal] ∧ y.before.permission = some .edit ∧
      x.before.permission = some .edit ∧ ∀ z ∈ back, isTaken z = false

section Run

variable {calls : List Call} {s : Zbacs.Session} {pre post : List Applied} {x : Applied}

theorem isTaken_of_mem {effect : Effect} (h : effect ∈ effectsOf x) : isTaken x = true := by
  cases houtput : x.output with
  | error e =>
      rw [(effectsOf_error houtput).1] at h
      cases h
  | ok effects => exact (effectsOf_ok houtput).2

-- A call of a run that is taken, and one that is refused.
theorem step_of_taken (h : x ∈ trace feed calls s) (hx : isTaken x = true) :
    Step x.input.now x.before x.input.event x.after (effectsOf x) := by
  obtain ⟨before, call, -, -, rfl⟩ := exists_of_mem_trace h
  rcases feed_cases (final feed before s) call with ⟨e, hfeed⟩ | ⟨s', effects, hfeed, hstep⟩
  · rw [(effectsOf_error (congrArg Prod.fst hfeed)).2] at hx
    cases hx
  · rw [(effectsOf_ok (congrArg Prod.fst hfeed)).1]
    have hafter : (taken feed (final feed before s) call).after = s' := congrArg Prod.snd hfeed
    rw [hafter]
    exact hstep

theorem eq_of_refused (h : x ∈ trace feed calls s) {e : TransitionError} (hx : x.output = .error e) :
    x.after = x.before := by
  obtain ⟨before, call, -, -, rfl⟩ := exists_of_mem_trace h
  rcases feed_cases (final feed before s) call with ⟨_, hfeed⟩ | ⟨s', effects, hfeed, -⟩
  · exact congrArg Prod.snd hfeed
  · have hok : (taken feed (final feed before s) call).output = .ok effects := congrArg Prod.fst hfeed
    rw [hok] at hx
    cases hx

theorem mem_of_split (h : trace feed calls s = pre ++ x :: post) : x ∈ trace feed calls s := by
  rw [h]
  exact List.mem_append_right _ List.mem_cons_self

theorem kept_before (h : trace feed calls Session.new = pre ++ x :: post) : Kept pre x.before := by
  obtain ⟨before, call, -, -, rfl, rfl, -⟩ := trace_eq_append_cons h
  exact trace_kept before

-- The mark stands right before the start of the viewer.
theorem marked_launch {front back : List Effect}
    (h : [.markReadOnly] ++ [.launchViewer, .audit .opened] = front ++ .launchViewer :: back) :
    ∃ rest, front = rest ++ [.markReadOnly] := by
  rcases front with _ | ⟨a, _ | ⟨b, _ | ⟨c, front⟩⟩⟩ <;> simp at h
  exact ⟨[], by rw [h.1, List.nil_append]⟩

theorem launched_after_grant (h : trace feed calls Session.new = pre ++ x :: post)
    (hlaunch : .launchViewer ∈ effectsOf x) :
    x.before.state = .granted ∧ ∃ y ∈ pre, ∃ permission notBefore expiry maxOpens,
      y.input.event = .granted permission notBefore expiry maxOpens ∧ isTaken y = true ∧
      (permission = .readOnly ∨ permission = .edit) ∧ x.before.permission = some permission ∧
      (permission = .readOnly → ∀ front back, effectsOf x = front ++ .launchViewer :: back →
        ∃ rest, front = rest ++ [.markReadOnly]) := by
  obtain ⟨-, hstate, -, heffects⟩ :=
    (step_of_taken (mem_of_split h) (isTaken_of_mem hlaunch)).of_launch hlaunch
  obtain ⟨y, hy, permission, notBefore, expiry, maxOpens, hevent, htaken, hdeny, hpermission⟩ :=
    (kept_before h).granted hstate
  refine ⟨hstate, y, hy, permission, notBefore, expiry, maxOpens, hevent, htaken, ?_, hpermission, ?_⟩
  · cases permission with
    | deny => exact absurd rfl hdeny
    | readOnly => exact .inl rfl
    | edit => exact .inr rfl
  · rintro rfl front back hsplit
    rw [heffects, if_pos hpermission] at hsplit
    exact marked_launch hsplit

theorem resealed_after_save (h : trace feed calls Session.new = pre ++ x :: post) {version : UInt32}
    (hevent : x.input.event = .resealed version) (hx : isTaken x = true) :
    ∃ front y back, pre = front ++ y :: back ∧ y.input.event = .saved ∧
      y.output = .ok [.reseal] ∧ y.before.permission = some .edit ∧
      x.before.permission = some .edit ∧ ∀ z ∈ back, isTaken z = false := by
  have hstep := step_of_taken (mem_of_split h) hx
  have hkept := kept_before h
  rw [hevent] at hstep
  have hstate := hstep.of_resealed
  obtain ⟨front, y, back, hpre, hsaved, houtput, hedit, hback⟩ := hkept.saved hstate
  exact ⟨front, y, back, hpre, hsaved, houtput, hedit, hkept.edited (.inr (.inl hstate)), hback⟩

theorem exited_clean (h : trace feed calls Session.new = pre ++ x :: post)
    (hevent : x.input.event = .viewerExited) (hx : isTaken x = true) :
    x.after.state = .closed ∧ x.before.dirty = false ∧ x.after.dirty = false := by
  have hstep := step_of_taken (mem_of_split h) hx
  have hkept := kept_before h
  rw [hevent] at hstep
  obtain ⟨hstate, hafter⟩ := hstep.of_viewerExited
  have hclean : x.before.dirty = false := by
    by_contra hdirty
    have hwhere := hkept.clean (Bool.eq_true_of_not_eq_false hdirty)
    rw [hstate] at hwhere
    simp at hwhere
  rw [hafter]
  exact ⟨rfl, hclean, hclean⟩

end Run

-- Any sequence of calls on a fresh session.
theorem trace_safe (calls : List Call) :
    Safe (trace feed calls Session.new) (final feed calls Session.new) where
  readOnly hpermission := by
    have hkept := trace_kept calls
    have hnot : ¬((final feed calls Session.new).version ≠ none ∨
        (final feed calls Session.new).state = .resealing ∨
        ∃ x ∈ trace feed calls Session.new, .reseal ∈ effectsOf x) := by
      intro hedited
      rw [hkept.edited hedited] at hpermission
      cases hpermission
    push Not at hnot
    exact ⟨hnot.2.2, hnot.1⟩
  launched _ _ _ hsplit hlaunch := launched_after_grant hsplit hlaunch
  once := by
    have hlaunches := (trace_kept calls).launches
    split_ifs at hlaunches <;> omega
  budget := (trace_kept calls).budget
  refused _ hx _ herror := eq_of_refused hx herror
  ended pre x post hsplit hterminal := by
    obtain ⟨before, call, after, rfl, -, rfl, rfl⟩ := trace_eq_append_cons hsplit
    obtain ⟨hall, hfinal⟩ := trace_terminal after hterminal
    refine ⟨hall, ?_⟩
    rw [final_append, final]
    exact congrArg Session.state hfinal
  exited x hx hevent htaken := by
    obtain ⟨pre, post, hsplit⟩ := List.append_of_mem hx
    exact exited_clean hsplit hevent htaken
  resealed _ _ _ _ hsplit hevent htaken := resealed_after_save hsplit hevent htaken

end Zbacs.Session
