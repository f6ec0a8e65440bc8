import Mathlib.Init

namespace Zbacs.Lib

-- Runs of a machine that answers every input, with a record of each call.

structure Taken (σ α β : Type) where
  before : σ
  input : α
  output : β
  after : σ

variable {σ α β : Type} (step : σ → α → β × σ)

def taken (s : σ) (a : α) : Taken σ α β := ⟨s, a, (step s a).1, (step s a).2⟩

def trace : List α → σ → List (Taken σ α β)
  | [], _ => []
  | a :: rest, s => taken step s a :: trace rest (step s a).2

def final : List α → σ → σ
  | [], s => s
  | a :: rest, s => final rest (step s a).2

variable {step}

theorem trace_append (pre post : List α) (s : σ) :
    trace step (pre ++ post) s = trace step pre s ++ trace step post (final step pre s) := by
  induction pre generalizing s with
  | nil => rfl
  | cons a pre ih => rw [List.cons_append, trace, ih, trace, final, List.cons_append]

theorem final_append (pre post : List α) (s : σ) :
    final step (pre ++ post) s = final step post (final step pre s) := by
  induction pre generalizing s with
  | nil => rfl
  | cons a pre ih => rw [List.cons_append, final, ih, final]

theorem map_input_trace (as : List α) (s : σ) : (trace step as s).map Taken.input = as := by
  induction as generalizing s with
  | nil => rfl
  | cons a as ih => rw [trace, List.map_cons, ih, taken]

-- The calls around one of them.
theorem trace_eq_append_cons {as : List α} {s : σ} {pre post : List (Taken σ α β)}
    {x : Taken σ α β} (h : trace step as s = pre ++ x :: post) :
    ∃ before a after, as = before ++ a :: after ∧ pre = trace step before s ∧
      x = taken step (final step before s) a ∧ post = trace step after x.after := by
  induction as generalizing s pre with
  | nil => simp [trace] at h
  | cons a as ih =>
      cases pre with
      | nil =>
          obtain ⟨rfl, rfl⟩ := List.cons.inj h
          exact ⟨[], a, as, rfl, rfl, rfl, rfl⟩
      | cons y pre =>
          obtain ⟨rfl, htail⟩ := List.cons.inj h
          obtain ⟨before, b, after, rfl, hpre, hx, hpost⟩ := ih htail
          exact ⟨a :: before, b, after, rfl, by rw [trace, hpre], hx, hpost⟩

theorem exists_of_mem_trace {as : List α} {s : σ} {x : Taken σ α β} (h : x ∈ trace step as s) :
    ∃ before a after, as = before ++ a :: after ∧ x = taken step (final step before s) a := by
  obtain ⟨pre, post, hsplit⟩ := List.append_of_mem h
  obtain ⟨before, a, after, has, -, hx, -⟩ := trace_eq_append_cons hsplit
  exact ⟨before, a, after, has, hx⟩

theorem taken_mem_trace (pre : List α) (a : α) (post : List α) (s : σ) :
    taken step (final step pre s) a ∈ trace step (pre ++ a :: post) s := by
  rw [trace_append, trace]
  exact List.mem_append_right _ List.mem_cons_self

-- What a call keeps, of the record so far and the state it has led to, holds of every run.
theorem trace_induct {inv : List (Taken σ α β) → σ → Prop} {s : σ} (hstart : inv [] s)
    (hstep : ∀ log s a, inv log s → inv (log ++ [taken step s a]) (step s a).2) (as : List α) :
    inv (trace step as s) (final step as s) := by
  have hall : ∀ (as : List α) (log : List (Taken σ α β)) (s : σ), inv log s →
      inv (log ++ trace step as s) (final step as s) := by
    intro as
    induction as with
    | nil =>
        intro log s h
        rw [trace, List.append_nil]
        exact h
    | cons a as ih =>
        intro log s h
        have hnext := ih (log ++ [taken step s a]) (step s a).2 (hstep log s a h)
        rwa [List.append_assoc, List.singleton_append] at hnext
  exact hall as [] s hstart

-- A condition on every member of a list and on what stands before it, with one more at the end.
theorem forall_split_concat {γ : Type} {ok : List γ → γ → Prop} {log : List γ} {x : γ} :
    (∀ pre y post, log ++ [x] = pre ++ y :: post → ok pre y) ↔
      (∀ pre y post, log = pre ++ y :: post → ok pre y) ∧ ok log x := by
  constructor
  · refine fun h => ⟨fun pre y post hlog => h pre y (post ++ [x]) ?_, h log x [] rfl⟩
    rw [hlog, List.append_assoc, List.cons_append]
  · rintro ⟨hlog, hx⟩ pre y post hsplit
    rcases List.eq_nil_or_concat post with rfl | ⟨rest, z, rfl⟩
    · obtain ⟨rfl, rfl⟩ := List.append_singleton_inj.mp hsplit
      exact hx
    · rw [List.concat_eq_append, ← List.cons_append, ← List.append_assoc] at hsplit
      obtain ⟨rfl, -⟩ := List.append_singleton_inj.mp hsplit
      exact hlog pre y rest rfl

-- A condition on every call and on the record before it.
def Along (ok : List (Taken σ α β) → Taken σ α β → Prop) (log : List (Taken σ α β)) : Prop :=
  ∀ pre x post, log = pre ++ x :: post → ok pre x

theorem along_concat {ok : List (Taken σ α β) → Taken σ α β → Prop} {log : List (Taken σ α β)}
    {x : Taken σ α β} (h : Along ok (log ++ [x])) : Along ok log ∧ ok log x :=
  forall_split_concat.mp h

-- The same, call by call, after the record `pre`.
def AlongFrom (ok : List (Taken σ α β) → Taken σ α β → Prop) (pre : List (Taken σ α β)) :
    List (Taken σ α β) → Prop
  | [] => True
  | x :: rest => ok pre x ∧ AlongFrom ok (pre ++ [x]) rest

instance instDecidableAlongFrom {ok : List (Taken σ α β) → Taken σ α β → Prop}
    [∀ log x, Decidable (ok log x)] : ∀ (pre log : List (Taken σ α β)), Decidable (AlongFrom ok pre log)
  | _, [] => inferInstanceAs (Decidable True)
  | pre, x :: rest =>
      have : Decidable (AlongFrom ok (pre ++ [x]) rest) := instDecidableAlongFrom (pre ++ [x]) rest
      inferInstanceAs (Decidable (_ ∧ _))

theorem alongFrom_append {ok : List (Taken σ α β) → Taken σ α β → Prop}
    {pre log log' : List (Taken σ α β)} :
    AlongFrom ok pre (log ++ log') ↔ AlongFrom ok pre log ∧ AlongFrom ok (pre ++ log) log' := by
  induction log generalizing pre with
  | nil => simp [AlongFrom]
  | cons x log ih => simp [AlongFrom, ih, and_assoc]

theorem AlongFrom.along {ok : List (Taken σ α β) → Taken σ α β → Prop} {log : List (Taken σ α β)}
    (h : AlongFrom ok [] log) : Along ok log := by
  rintro pre x post rfl
  exact (alongFrom_append.mp h).2.1

theorem Along.concat {ok : List (Taken σ α β) → Taken σ α β → Prop} {log : List (Taken σ α β)}
    {x : Taken σ α β} (h : Along ok log) (hx : ok log x) : Along ok (log ++ [x]) :=
  forall_split_concat.mpr ⟨h, hx⟩

-- What a call that meets the condition keeps holds of every run whose calls all meet it.
theorem trace_induct_along {ok : List (Taken σ α β) → Taken σ α β → Prop}
    {inv : List (Taken σ α β) → σ → Prop} {s : σ} (hstart : inv [] s)
    (hstep : ∀ log s a, inv log s → ok log (taken step s a) →
      inv (log ++ [taken step s a]) (step s a).2) (as : List α)
    (h : Along ok (trace step as s)) : inv (trace step as s) (final step as s) := by
  refine @trace_induct _ _ _ _ (fun log s => Along ok log → inv log s) _ (fun _ => hstart) ?_ as h
  intro log s a ih halong
  obtain ⟨hlog, hok⟩ := along_concat halong
  exact hstep log s a (ih hlog) hok

-- The same for what holds of every call as it is made.
theorem trace_along {ok good : List (Taken σ α β) → Taken σ α β → Prop}
    {inv : List (Taken σ α β) → σ → Prop} {s : σ} (hstart : inv [] s)
    (hstep : ∀ log s a, inv log s → ok log (taken step s a) →
      inv (log ++ [taken step s a]) (step s a).2 ∧ good log (taken step s a)) (as : List α)
    (h : Along ok (trace step as s)) : Along good (trace step as s) := by
  refine (@trace_induct_along _ _ _ step ok (fun log s => inv log s ∧ Along good log) s
    ⟨hstart, by simp [Along]⟩ ?_ as h).2
  rintro log s a ⟨hinv, hgood⟩ hok
  obtain ⟨hinv', hx⟩ := hstep log s a hinv hok
  exact ⟨hinv', hgood.concat hx⟩

-- What a call keeps of the state alone.
theorem final_invariant {inv : σ → Prop} {s : σ} (hstart : inv s)
    (hstep : ∀ s a, inv s → inv (step s a).2) (as : List α) : inv (final step as s) :=
  trace_induct hstart (fun _ s a => hstep s a) as

end Zbacs.Lib
