import Mathlib.Data.List.Nodup
import Mathlib.Data.Set.Defs
import Mathlib.Tactic.Tauto
import Zbacs.Lib.Trace

namespace Zbacs.Lib

-- A machine that grants a key to the first call that wants it, and never again. The keys it has spent
-- are read off its state, and it may answer and keep whatever else it likes.
structure OneTime {σ α β κ : Type} (step : σ → α → β × σ) (inv : σ → Prop) (spent : σ → Set κ)
    (want : α → Option κ) (granted : α → β → Option κ) : Prop where
  inv_step : ∀ {s a}, inv s → inv (step s a).2
  mem_spent_step : ∀ {s a k}, inv s → (k ∈ spent (step s a).2 ↔ k ∈ spent s ∨ want a = some k)
  granted_iff : ∀ {s a k}, inv s → (granted a (step s a).1 = some k ↔ want a = some k ∧ k ∉ spent s)

namespace OneTime

variable {σ α β κ : Type} {step : σ → α → β × σ} {inv : σ → Prop} {spent : σ → Set κ}
  {want : α → Option κ} {granted : α → β → Option κ} {s : σ} {k : κ}

-- What the calls of a run were granted.
def grants (granted : α → β → Option κ) (log : List (Taken σ α β)) : List κ :=
  log.filterMap fun x => granted x.input x.output

theorem grants_concat (log : List (Taken σ α β)) (x : Taken σ α β) :
    grants granted (log ++ [x]) = grants granted log ++ (granted x.input x.output).toList := by
  rw [grants, grants, List.filterMap_append, List.filterMap_cons, List.filterMap_nil]
  cases granted x.input x.output <;> rfl

theorem inv_final (h : OneTime step inv spent want granted) (hs : inv s) (as : List α) :
    inv (final step as s) :=
  final_invariant hs (fun _ _ => h.inv_step) as

-- A key is spent where it was before the run, or where a call of it wanted the key.
theorem mem_spent_final (h : OneTime step inv spent want granted) (hs : inv s) (as : List α) :
    k ∈ spent (final step as s) ↔ k ∈ spent s ∨ ∃ a ∈ as, want a = some k := by
  induction as generalizing s with
  | nil => simp [final]
  | cons a as ih =>
      rw [final, ih (h.inv_step hs), h.mem_spent_step hs, List.exists_mem_cons_iff, or_assoc]

-- What a run has granted is what it has spent, and nothing was granted to two of its calls.
theorem granted_once (h : OneTime step inv spent want granted) (hs : inv s) (hnone : ∀ k, k ∉ spent s)
    (as : List α) :
    (grants granted (trace step as s)).Nodup ∧
      ∀ k, k ∈ spent (final step as s) ↔ k ∈ grants granted (trace step as s) := by
  refine (@trace_induct _ _ _ step (fun log s => inv s ∧ (grants granted log).Nodup ∧
    ∀ k, k ∈ spent s ↔ k ∈ grants granted log) s ⟨hs, List.nodup_nil, fun k => ?_⟩ ?_ as).2
  · exact iff_of_false (hnone k) List.not_mem_nil
  · rintro log s a ⟨hinv, hnodup, hspent⟩
    rw [grants_concat]
    refine ⟨h.inv_step hinv, List.Nodup.append hnodup ?_ ?_, fun k => ?_⟩
    · change (granted a (step s a).1).toList.Nodup
      cases granted a (step s a).1 <;> simp
    · intro k hlog hk
      obtain ⟨-, hfresh⟩ := (h.granted_iff hinv).mp (Option.mem_toList.mp hk)
      exact hfresh ((hspent k).mpr hlog)
    · have hgranted : k ∈ (granted a (step s a).1).toList ↔ want a = some k ∧ k ∉ spent s :=
        Option.mem_toList.trans (h.granted_iff hinv)
      rw [h.mem_spent_step hinv, List.mem_append, ← hspent, taken, hgranted]
      tauto

-- Before one of its calls, a run has spent what the calls before that one wanted.
theorem mem_spent_before (h : OneTime step inv spent want granted) (hs : inv s) (hnone : ∀ k, k ∉ spent s)
    {as : List α} {pre post : List (Taken σ α β)} {x : Taken σ α β}
    (hsplit : trace step as s = pre ++ x :: post) :
    k ∈ spent x.before ↔ ∃ y ∈ pre, want y.input = some k := by
  obtain ⟨before, a, after, -, rfl, rfl, -⟩ := trace_eq_append_cons hsplit
  have hinputs : (∃ a ∈ before, want a = some k) ↔
      ∃ y ∈ trace step before s, want y.input = some k := by
    conv_lhs => rw [← @map_input_trace _ _ _ step before s]
    simp only [List.mem_map, exists_exists_and_eq_and]
  exact ((h.mem_spent_final hs before).trans (or_iff_right (hnone k))).trans hinputs

end OneTime

end Zbacs.Lib
