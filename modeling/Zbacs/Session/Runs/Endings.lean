import Zbacs.Session.Runs.Theorems

namespace Zbacs.Session

open Zbacs.Core Zbacs.Lib

-- Ended from outside while nothing has been opened yet.
def Unopened (x : Applied) : Prop :=
  x.before.state = .granted ∧ x.input.event.fromOutside = true

section Ending

variable {now : UInt64} {s s' : Zbacs.Session} {event : Event} {effects : List Effect}

theorem mem_ending {effect : Effect} {asked : List Effect} :
    effect ∈ s.ending asked ↔ s.state.plaintextAllowed = true ∧ effect ∈ asked := by
  unfold Session.ending
  split_ifs with hplain <;> simp [hplain]

-- With a grant taken, plaintext is allowed in every live state but `Granted`.
theorem plaintextAllowed_iff (hlive : s.state.isTerminal = false) (hs : s.state ≠ .requested) :
    s.state.plaintextAllowed = true ↔ s.state ≠ .granted := by
  generalize s.state = state at hlive hs
  cases state with
  | requested => exact absurd rfl hs
  | granted | opened | resealing => decide
  | denied | closed | revoked | failed => cases hlive

-- The step that ends a granted session asks for the wipe, unless it finds it unopened.
theorem Step.wipe_iff (h : Step now s event s' effects) (hs : s.state ≠ .requested)
    (hended : s'.state.isTerminal = true) :
    .wipeWorkspace ∈ effects ↔ ¬(s.state = .granted ∧ event.fromOutside = true) := by
  cases h with
  | granted | opened | saved | resealed => cases hended
  | denied hstate => exact absurd hstate hs
  | discarded hstate =>
      rw [hstate] at hended
      cases hended
  | exhausted | viewerExited => simp [Event.fromOutside]
  | revoked hlive | expired hlive | failed hlive =>
      simp [mem_ending, plaintextAllowed_iff hlive hs, Event.fromOutside]

end Ending

section Run

variable {calls : List Call} {front back post : List Applied} {x y : Applied}

-- No wipe was asked for while the session was live.
theorem not_wiped_before {pre : List Applied} (h : trace feed calls Session.new = pre ++ x :: post)
    (hlive : x.before.state.isTerminal = false) {z : Applied} (hz : z ∈ pre) :
    .wipeWorkspace ∉ effectsOf z := by
  intro hwipe
  have hended := (kept_before h).wiped ⟨z, hz, hwipe⟩
  rw [hlive] at hended
  cases hended

theorem isTaken_of_ended (h : x ∈ trace feed calls Session.new)
    (hlive : x.before.state.isTerminal = false) (hended : x.after.state.isTerminal = true) :
    isTaken x = true := by
  cases houtput : x.output with
  | error e =>
      rw [eq_of_refused h houtput, hlive] at hended
      cases hended
  | ok effects => exact (effectsOf_ok houtput).2

-- Plaintext that was asked for is asked to be wiped before the session rests, by the call that
-- ends it, unless that call ends it from outside before it was opened.
theorem wiped_iff (h : trace feed calls Session.new = front ++ y :: (back ++ x :: post))
    (hasked : .materialisePlaintext ∈ effectsOf y) (hlive : x.before.state.isTerminal = false)
    (hended : x.after.state.isTerminal = true) :
    (∃ z ∈ back ++ [x], .wipeWorkspace ∈ effectsOf z) ↔ ¬Unopened x := by
  have hsplit : trace feed calls Session.new = (front ++ y :: back) ++ x :: post := by
    rw [h, List.append_assoc, List.cons_append]
  have hx := mem_of_split hsplit
  have hstep := step_of_taken hx (isTaken_of_ended hx hlive hended)
  have hgranted : x.before.state ≠ .requested := by
    intro hfresh
    have hnone := ((kept_before hsplit).fresh hfresh).2.2.2 y (by simp)
    rw [hnone] at hasked
    cases hasked
  have hbefore : ¬∃ z ∈ back, .wipeWorkspace ∈ effectsOf z := by
    rintro ⟨z, hz, hwipe⟩
    exact not_wiped_before hsplit hlive (by simp [hz]) hwipe
  rw [exists_effect_concat, or_iff_right hbefore]
  exact hstep.wipe_iff hgranted hended

end Run

-- A viewer that exits.
def exitingCalls : List Call :=
  [⟨.granted .edit 0 10 1, 1⟩, ⟨.opened, 2⟩, ⟨.viewerExited, 3⟩]

def askedCall : Applied := taken feed Session.new ⟨.granted .edit 0 10 1, 1⟩

def openedCall : Applied := taken feed askedCall.after ⟨.opened, 2⟩

def exitedCall : Applied := taken feed openedCall.after ⟨.viewerExited, 3⟩

theorem wiped_exiting :
    trace feed exitingCalls Session.new = [] ++ askedCall :: ([openedCall] ++ exitedCall :: []) ∧
      ∃ z ∈ [openedCall] ++ [exitedCall], .wipeWorkspace ∈ effectsOf z := by
  have hcalls : trace feed exitingCalls Session.new =
      [] ++ askedCall :: ([openedCall] ++ exitedCall :: []) := rfl
  have hopened : ¬Unopened exitedCall := by
    rintro ⟨hstate, -⟩
    cases hstate
  exact ⟨hcalls, (wiped_iff hcalls (by decide) rfl rfl).mpr hopened⟩

-- A grant that is revoked before the file is opened.
def revokedCalls : List Call := [⟨.granted .edit 0 10 1, 1⟩, ⟨.revoked, 2⟩]

theorem not_wiped_unopened :
    ¬∀ calls front y back x post,
      trace feed calls Session.new = front ++ y :: (back ++ x :: post) →
      .materialisePlaintext ∈ effectsOf y → x.before.state.isTerminal = false →
      x.after.state.isTerminal = true →
      ∃ z ∈ back ++ [x], .wipeWorkspace ∈ effectsOf z := by
  intro hall
  obtain ⟨z, hz, hwipe⟩ := hall revokedCalls [] askedCall []
    (taken feed askedCall.after ⟨.revoked, 2⟩) [] rfl (by decide) rfl rfl
  rw [List.nil_append, List.mem_singleton] at hz
  rw [hz] at hwipe
  revert hwipe
  decide

end Zbacs.Session
