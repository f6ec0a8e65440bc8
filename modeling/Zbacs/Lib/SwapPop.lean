import Mathlib.Data.List.Induction
import Mathlib.Data.List.Perm.Basic

namespace Zbacs.Lib

variable {α : Type}

-- The last element goes into one place and is taken off the end.
def swapPop (l : List α) (i : Nat) : List α :=
  match l.getLast? with
  | none => l
  | some last => (l.set i last).dropLast

-- Look for an element from a place on, for so many places, and take it out where it is first found.
def swapPopFrom [DecidableEq α] (a : α) (l : List α) : Nat → Nat → List α
  | 0, _ => l
  | n + 1, i => if l[i]? = some a then swapPop l i else swapPopFrom a l n (i + 1)

theorem swapPop_perm {l : List α} {i : Nat} (h : i < l.length) :
    (swapPop l i).Perm (l.eraseIdx i) := by
  induction l using List.reverseRecOn with
  | nil => cases h
  | append_singleton l last =>
      rw [List.length_append, List.length_singleton] at h
      simp only [swapPop, List.getLast?_append, List.getLast?_singleton, Option.some_or]
      by_cases hi : i < l.length
      · rw [List.set_append_left _ _ hi, List.dropLast_concat, List.eraseIdx_append_of_lt_length hi]
        have hset := List.set_perm_cons_eraseIdx hi last
        exact hset.trans (List.perm_append_singleton ..).symm
      · obtain rfl : i = l.length := by omega
        rw [List.set_append_right _ _ (Nat.le_refl _), Nat.sub_self,
          List.eraseIdx_append_of_length_le (Nat.le_refl _), Nat.sub_self]
        simp

-- What is found is taken out once.
theorem swapPopFrom_perm [DecidableEq α] {a : α} {l : List α} {n i : Nat} (hn : i + n = l.length)
    (hbefore : a ∉ l.take i) : (swapPopFrom a l n i).Perm (l.erase a) := by
  induction n generalizing i with
  | zero =>
      rw [Nat.add_zero] at hn
      rw [hn, List.take_length] at hbefore
      rw [swapPopFrom, List.erase_of_not_mem hbefore]
  | succ n ih =>
      have hi : i < l.length := by omega
      rw [swapPopFrom, List.getElem?_eq_getElem hi]
      by_cases hfound : l[i] = a
      · rw [if_pos (congrArg some hfound)]
        have hindex : l.idxOf a = i := by
          have hsplit : l = l.take i ++ a :: l.drop (i + 1) := by
            rw [← hfound, List.getElem_cons_drop, List.take_append_drop]
          rw [hsplit, List.idxOf_append_of_notMem hbefore, List.idxOf_cons_self, Nat.add_zero,
            List.length_take, Nat.min_eq_left (Nat.le_of_lt hi)]
        rw [List.erase_eq_eraseIdx_of_idxOf hindex]
        exact swapPop_perm hi
      · rw [if_neg fun hsome => hfound (Option.some.inj hsome)]
        refine ih (by omega) ?_
        rw [List.take_add_one, List.getElem?_eq_getElem hi, List.mem_append, not_or]
        refine ⟨hbefore, fun hmem => hfound ?_⟩
        rw [Option.toList_some, List.mem_singleton] at hmem
        exact hmem.symm

end Zbacs.Lib
