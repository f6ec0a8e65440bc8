import Mathlib.Data.Option.Basic

namespace Zbacs.Lib

-- Runs of a machine whose actions may be refused.

variable {σ α : Type} (step : σ → α → Option σ)

def run : List α → σ → Option σ
  | [], s => some s
  | a :: rest, s => (step s a).bind (run rest)

-- What the actions of a run cost, each in the state it is taken in.
def spent (cost : σ → α → Nat) : List α → σ → Nat
  | [], _ => 0
  | a :: rest, s => cost s a + ((step s a).map (spent cost rest)).getD 0

variable {step}

theorem run_cons_eq_some {a : α} {rest : List α} {s s' : σ} :
    run step (a :: rest) s = some s' ↔ ∃ t, step s a = some t ∧ run step rest t = some s' := by
  rw [run, Option.bind_eq_some_iff]

theorem run_append (pre post : List α) (s : σ) :
    run step (pre ++ post) s = (run step pre s).bind (run step post) := by
  induction pre generalizing s with
  | nil => rfl
  | cons a pre ih =>
      rw [List.cons_append, run, run]
      cases step s a with
      | none => rfl
      | some t => exact ih t

-- What every step preserves holds at the end of every run.
theorem run_invariant {inv : σ → Prop} (hstep : ∀ s a s', inv s → step s a = some s' → inv s')
    {as : List α} {s s' : σ} (hs : inv s) (h : run step as s = some s') : inv s' := by
  induction as generalizing s with
  | nil =>
      cases h
      exact hs
  | cons a as ih =>
      obtain ⟨t, ht, hrest⟩ := run_cons_eq_some.mp h
      exact ih (hstep s a t hs ht) hrest

-- A quantity that no step raises by more than its cost.
theorem run_potential {potential : σ → Nat} {cost : σ → α → Nat}
    (hstep : ∀ s a s', step s a = some s' → potential s' ≤ potential s + cost s a)
    {as : List α} {s s' : σ} (h : run step as s = some s') :
    potential s' ≤ potential s + spent step cost as s := by
  induction as generalizing s with
  | nil =>
      cases h
      exact Nat.le_refl _
  | cons a as ih =>
      obtain ⟨t, ht, hrest⟩ := run_cons_eq_some.mp h
      have hfirst := hstep s a t ht
      have hothers := ih hrest
      simp only [spent, ht, Option.map_some, Option.getD_some]
      omega

end Zbacs.Lib
