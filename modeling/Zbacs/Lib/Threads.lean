import Zbacs.Lib.Trace

namespace Zbacs.Lib

-- Threads that take turns on a shared state. What one of them does without letting another run
-- in between is one step.

structure Threads (σ τ : Type) where
  shared : σ
  threads : List τ

-- A job arrives and gets a thread of its own, or a thread goes on with what it meets.
inductive Turn (κ ι : Type) where
  | start (job : κ)
  | resume (index : Nat) (input : ι)

variable {σ τ κ ι ε : Type} (enter : κ → τ) (run : τ → ι → σ → List ε × τ × σ)

namespace Threads

def turn (s : Threads σ τ) : Turn κ ι → List ε × Threads σ τ
  | .start job => ([], ⟨s.shared, s.threads ++ [enter job]⟩)
  | .resume index input => match s.threads[index]? with
    | none => ([], s)
    | some thread =>
      let (out, thread', shared) := run thread input s.shared
      (out, ⟨shared, s.threads.set index thread'⟩)

variable {enter run}

theorem turn_resume {s : Threads σ τ} {index : Nat} {input : ι} {thread : τ}
    (h : s.threads[index]? = some thread) :
    turn enter run s (.resume index input) = ((run thread input s.shared).1,
      ⟨(run thread input s.shared).2.2, s.threads.set index (run thread input s.shared).2.1⟩) := by
  simp only [turn, h]

-- A turn leaves the shared state alone and puts nothing out, or it is a step of a thread.
theorem turn_cases (s : Threads σ τ) (a : Turn κ ι) :
    ((turn enter run s a).1 = [] ∧ (turn enter run s a).2.shared = s.shared) ∨
      ∃ index input thread, a = .resume index input ∧ s.threads[index]? = some thread ∧
        turn enter run s a = ((run thread input s.shared).1, ⟨(run thread input s.shared).2.2,
          s.threads.set index (run thread input s.shared).2.1⟩) := by
  cases a with
  | start job => exact .inl ⟨rfl, rfl⟩
  | resume index input =>
      cases hthread : s.threads[index]? with
      | none =>
          left
          simp [turn, hthread]
      | some thread => exact .inr ⟨index, input, thread, rfl, hthread, turn_resume hthread⟩

-- A thread changes in its own steps alone.

theorem thread_ran {s : Threads σ τ} {index : Nat} {thread : τ} (input : ι)
    (h : s.threads[index]? = some thread) :
    (turn enter run s (.resume index input)).2.threads[index]? =
      some (run thread input s.shared).2.1 := by
  rw [turn_resume h]
  exact List.getElem?_set_self (List.getElem?_eq_some_iff.mp h).1

theorem thread_kept {s : Threads σ τ} {index : Nat} {thread : τ} {a : Turn κ ι}
    (h : s.threads[index]? = some thread) (hother : ∀ input, a ≠ .resume index input) :
    (turn enter run s a).2.threads[index]? = some thread := by
  cases a with
  | start job =>
      exact (List.getElem?_append_left (List.getElem?_eq_some_iff.mp h).1).trans h
  | resume i input =>
      have hne : i ≠ index := fun heq => hother input (heq ▸ rfl)
      cases hi : s.threads[i]? with
      | none =>
          simp only [turn, hi]
          exact h
      | some other =>
          rw [turn_resume hi]
          exact (List.getElem?_set_ne hne).trans h

-- Where a thread that is there after a turn comes from.
theorem thread_cases {s : Threads σ τ} {a : Turn κ ι} {index : Nat} {after : τ}
    (h : (turn enter run s a).2.threads[index]? = some after) :
    s.threads[index]? = some after ∨ (∃ job, a = .start job ∧ after = enter job) ∨
      ∃ input thread, a = .resume index input ∧ s.threads[index]? = some thread ∧
        after = (run thread input s.shared).2.1 := by
  cases a with
  | start job =>
      change (s.threads ++ [enter job])[index]? = some after at h
      rcases Nat.lt_or_ge index s.threads.length with hlt | hge
      · exact .inl ((List.getElem?_append_left hlt).symm.trans h)
      · rw [List.getElem?_append_right hge] at h
        exact .inr (.inl ⟨job, rfl, List.mem_singleton.mp (List.mem_of_getElem? h)⟩)
  | resume i input =>
      cases hi : s.threads[i]? with
      | none =>
          simp only [turn, hi] at h
          exact .inl h
      | some thread =>
          by_cases hmine : i = index
          · subst hmine
            rw [thread_ran input hi] at h
            exact .inr (.inr ⟨input, thread, rfl, hi, (Option.some.inj h).symm⟩)
          · rw [turn_resume hi] at h
            exact .inl ((List.getElem?_set_ne hmine).symm.trans h)

end Threads

-- The list of threads after one of them went on.

section Set

variable {τ : Type} {threads : List τ} {index : Nat} {thread thread' other : τ}

theorem mem_set_of_ne (h : threads[index]? = some thread) (hmem : other ∈ threads)
    (hne : other ≠ thread) : other ∈ threads.set index thread' := by
  obtain ⟨j, hj⟩ := List.getElem?_of_mem hmem
  refine List.mem_of_getElem? (i := j) ?_
  rw [List.getElem?_set_ne, hj]
  rintro rfl
  exact hne (Option.some.inj (hj.symm.trans h))

theorem countP_set_add (p : τ → Bool) (h : threads[index]? = some thread) :
    (threads.set index thread').countP p + (if p thread then 1 else 0) =
      threads.countP p + (if p thread' then 1 else 0) := by
  obtain ⟨hlt, hget⟩ := List.getElem?_eq_some_iff.mp h
  have hpos : (if p thread then 1 else 0) ≤ threads.countP p := by
    split
    · rename_i hp
      exact List.countP_pos_iff.mpr ⟨thread, List.mem_of_getElem? h, hp⟩
    · exact Nat.zero_le _
  rw [List.countP_set hlt, hget]
  omega

end Set

end Zbacs.Lib
