import Zbacs.Session.Runs.Theorems

namespace Zbacs.Session

open Zbacs.Core Zbacs.Lib

-- The clock of the calls never goes back.
def Forward (calls : List Call) : Prop := calls.Pairwise fun a b => a.now ≤ b.now

-- The viewer is started inside the window of the grant the session holds.
def InWindow (log : List Applied) : Prop :=
  ∀ x ∈ log, .launchViewer ∈ effectsOf x →
    x.before.notBefore ≤ x.input.now ∧ x.input.now < x.before.expiry

-- An open offered to a session that holds a grant with opens left.
def Opening (x : Applied) : Prop :=
  x.input.event = .opened ∧ x.before.state = .granted ∧
    (x.before.maxOpens = 0 ∨ x.before.opens < x.before.maxOpens)

def Late (x : Applied) : Prop := Opening x ∧ x.before.expiry ≤ x.input.now

def Early (x : Applied) : Prop := Opening x ∧ x.input.now < x.before.notBefore

section Run

variable {calls : List Call} {s : Zbacs.Session} {x : Applied}

-- An open is all it takes to start the viewer: the clock is not read again.
theorem launch_iff (h : x ∈ trace feed calls s) : .launchViewer ∈ effectsOf x ↔ Opening x := by
  constructor
  · intro hlaunch
    obtain ⟨hevent, hstate, hbudget, -⟩ :=
      (step_of_taken h (isTaken_of_mem hlaunch)).of_launch hlaunch
    exact ⟨hevent, hstate, hbudget⟩
  · rintro ⟨hevent, hstate, hbudget⟩
    obtain ⟨before, call, -, -, rfl⟩ := exists_of_mem_trace h
    have happly := @Session.apply_opened (final feed before s) call.now hstate hbudget
    rw [← hevent] at happly
    have houtput : (taken feed (final feed before s) call).output = _ :=
      congrArg Prod.fst (feed_of_step happly)
    rw [(effectsOf_ok houtput).1]
    simp

-- Where an open is neither early nor late it falls inside the window.
theorem inWindow_iff (calls : List Call) (s : Zbacs.Session) :
    InWindow (trace feed calls s) ↔ ∀ x ∈ trace feed calls s, ¬Late x ∧ ¬Early x := by
  refine forall₂_congr fun x hx => ?_
  rw [launch_iff hx, Late, Early]
  constructor
  · intro hin
    constructor
    · rintro ⟨hopen, hlate⟩
      exact UInt64.not_lt.mpr hlate (hin hopen).2
    · rintro ⟨hopen, hearly⟩
      exact UInt64.not_lt.mpr (hin hopen).1 hearly
  · rintro ⟨hlate, hearly⟩ hopen
    constructor
    · exact UInt64.not_lt.mp fun hlt => hearly ⟨hopen, hlt⟩
    · exact UInt64.not_le.mp fun hge => hlate ⟨hopen, hge⟩

-- When a grant is taken the clock has passed the start of its window.
def Started (log : List Applied) (s : Zbacs.Session) : Prop :=
  s.state = .granted → ∃ x ∈ log, s.notBefore ≤ x.input.now

theorem Step.started {now : UInt64} {s' : Zbacs.Session} {event : Event} {effects : List Effect}
    (h : Step now s event s' effects) (hs' : s'.state = .granted) : s'.notBefore ≤ now := by
  cases h with
  | granted _ _ hopen => exact hopen
  | discarded hstate =>
      rw [hstate] at hs'
      cases hs'
  | _ => simp at hs'

theorem Started.call {log : List Applied} (call : Call) (h : Started log s) :
    Started (log ++ [taken feed s call]) (feed s call).2 := by
  intro hs
  rcases feed_cases s call with ⟨e, hfeed⟩ | ⟨s', effects, hfeed, hstep⟩
  · rw [hfeed] at hs ⊢
    obtain ⟨x, hx, hstart⟩ := h hs
    exact ⟨x, List.mem_append_left _ hx, hstart⟩
  · rw [hfeed] at hs ⊢
    exact ⟨taken feed s call, List.mem_concat_self, hstep.started hs⟩

theorem trace_started (calls : List Call) :
    Started (trace feed calls Session.new) (final feed calls Session.new) :=
  trace_induct (fun hs => by cases hs) (fun _ _ call h => h.call call) calls

-- With a clock that never goes back, what a fresh session was granted is never opened early.
theorem not_early (hclock : Forward calls) (h : x ∈ trace feed calls Session.new) : ¬Early x := by
  rintro ⟨⟨-, hstate, -⟩, hearly⟩
  obtain ⟨pre, post, hsplit⟩ := List.append_of_mem h
  obtain ⟨before, call, after, rfl, -, rfl, -⟩ := trace_eq_append_cons hsplit
  obtain ⟨y, hy, hstart⟩ := trace_started before hstate
  have hinput : y.input ∈ before := by
    have hmap : (trace feed before Session.new).map Taken.input = before :=
      map_input_trace before Session.new
    rw [← hmap]
    exact List.mem_map_of_mem hy
  have hle : y.input.now ≤ call.now :=
    (List.pairwise_append.mp hclock).2.2 y.input hinput call List.mem_cons_self
  exact UInt64.not_lt.mpr (UInt64.le_trans hstart hle) hearly

end Run

-- The window holds for every start of the viewer exactly where no open comes late, nor, for a
-- session that was resumed, early.
theorem launched_in_window_iff (calls : List Call) :
    (Forward calls → (InWindow (trace feed calls Session.new) ↔
      ∀ x ∈ trace feed calls Session.new, ¬Late x)) ∧
    ∀ permission notBefore expiry maxOpens opens,
      (InWindow (trace feed calls (Session.resume permission notBefore expiry maxOpens opens)) ↔
        ∀ x ∈ trace feed calls (Session.resume permission notBefore expiry maxOpens opens),
          ¬Late x ∧ ¬Early x) := by
  refine ⟨fun hclock => ?_, fun _ _ _ _ _ => inWindow_iff calls _⟩
  rw [inWindow_iff]
  refine forall₂_congr fun x hx => ?_
  exact and_iff_left (not_early hclock hx)

-- A file that is opened in time, and one that is opened once its grant has run out.
def openedAt (now : UInt64) : List Call := [⟨.granted .edit 0 10 1, 1⟩, ⟨.opened, now⟩]

theorem launched_in_time :
    (∃ x ∈ trace feed (openedAt 2) Session.new, .launchViewer ∈ effectsOf x) ∧
      InWindow (trace feed (openedAt 2) Session.new) := by
  refine ⟨⟨taken feed (final feed [⟨.granted .edit 0 10 1, 1⟩] Session.new) ⟨.opened, 2⟩,
    by simp [openedAt, trace, final], by decide⟩, ?_⟩
  refine ((launched_in_window_iff (openedAt 2)).1 (by simp [Forward, openedAt])).mpr fun x hx => ?_
  rw [openedAt, trace, trace, trace, List.mem_cons, List.mem_singleton] at hx
  rcases hx with rfl | rfl
  · rintro ⟨⟨hevent, -⟩, -⟩
    cases hevent
  · rintro ⟨-, hlate⟩
    revert hlate
    decide

theorem launched_late :
    ¬((∀ calls, Forward calls → InWindow (trace feed calls Session.new)) ∧
      ∀ permission notBefore expiry maxOpens opens, permission ≠ .deny →
        ∀ calls, InWindow
          (trace feed calls (Session.resume permission notBefore expiry maxOpens opens))) := by
  rintro ⟨hnew, -⟩
  have hin := hnew (openedAt 20) (by simp [Forward, openedAt])
    (taken feed (final feed [⟨.granted .edit 0 10 1, 1⟩] Session.new) ⟨.opened, 20⟩)
    (by simp [openedAt, trace, final]) (by decide)
  revert hin
  decide

end Zbacs.Session
