import Mathlib.Algebra.Order.Monoid.Defs
import Mathlib.Data.List.Induction
import Zbacs.Lib.Trace

namespace Zbacs.Lib

-- Events and a rate: how many of them fall into one stretch of time.

section Window

variable {α β : Type} [AddCommMonoid α] [LinearOrder α]
variable (time : β → α) (width : α)

-- How many are no further back than `width`.
def recently (now : α) (log : List β) : Nat := log.countP fun x => now ≤ time x + width

-- As each of them came, fewer than `limit` had come in the last `width`.
def Paced (limit : Nat) (log : List β) : Prop :=
  ∀ pre x post, log = pre ++ x :: post → recently time width (time x) pre < limit

variable {time width} {limit : Nat} {log : List β}

theorem recently_append (now : α) (log log' : List β) : recently time width now (log ++ log') =
    recently time width now log + recently time width now log' := List.countP_append

theorem recently_le_of_le {now now' : α} (h : now ≤ now') (log : List β) :
    recently time width now' log ≤ recently time width now log := by
  refine List.countP_mono_left fun x _ hx => ?_
  rw [decide_eq_true_eq] at hx ⊢
  exact h.trans hx

theorem paced_nil : Paced time width limit [] := by
  intro pre x post h
  cases pre <;> cases h

theorem paced_concat {x : β} : Paced time width limit (log ++ [x]) ↔
    Paced time width limit log ∧ recently time width (time x) log < limit :=
  forall_split_concat

-- Wherever a stretch of that width starts, it has no more than the limit: the last of those in it
-- came when the others were recent.
theorem Paced.countP_le [IsOrderedAddMonoid α] (h : Paced time width limit log) (start : α) :
    log.countP (fun x => start ≤ time x ∧ time x ≤ start + width) ≤ limit := by
  induction log using List.reverseRecOn with
  | nil => exact Nat.zero_le _
  | append_singleton log x ih =>
      obtain ⟨hlog, hx⟩ := paced_concat.mp h
      rw [List.countP_append, List.countP_singleton]
      split_ifs with hin
      · obtain ⟨-, hend⟩ := of_decide_eq_true hin
        have hrecent : log.countP (fun y => start ≤ time y ∧ time y ≤ start + width) ≤
            recently time width (time x) log := by
          refine List.countP_mono_left fun y _ hy => ?_
          rw [decide_eq_true_eq] at hy ⊢
          exact hend.trans (add_le_add_left hy.1 width)
        omega
      · exact ih hlog

end Window

section Deque

variable {α β : Type} [AddCommMonoid α] [LinearOrder α] {time : β → α} {width : α} {log : List β}

-- What is out of date is in front of what is not.
theorem dropWhile_eq_filter {out : β → Bool} (h : log.Pairwise fun x y => out y → out x) :
    log.dropWhile out = log.filter fun x => !out x := by
  induction log with
  | nil => rfl
  | cons x log ih =>
      obtain ⟨hx, hlog⟩ := List.pairwise_cons.mp h
      by_cases hout : out x = true
      · rw [List.dropWhile_cons_of_pos hout, List.filter_cons_of_neg (by simp [hout]), ih hlog]
      · have hall : ∀ y ∈ log, (!out y) = true := fun y hy => by
          simpa using fun hy' => hout (hx y hy hy')
        rw [List.dropWhile_cons_of_neg hout, List.filter_cons_of_pos (by simp [hout]),
          List.filter_eq_self.mpr hall]

theorem recently_eq_zero {now : α} (h : ∀ x ∈ log, time x + width < now) :
    recently time width now log = 0 :=
  List.countP_eq_zero.mpr fun x hx => by simpa using h x hx

end Deque

end Zbacs.Lib
