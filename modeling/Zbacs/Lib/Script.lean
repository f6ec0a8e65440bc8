import Zbacs.Lib.Trace

namespace Zbacs.Lib

-- Programs that make calls to what is around them, and may be stopped before any of the calls. A call
-- may have more than one outcome. One that is cut off leaves what a failing one leaves.

structure Service (σ : Type) where
  Call : Type
  Answer : Call → Type
  Does : (c : Call) → σ → Answer c → σ → Prop

inductive Script {σ : Type} (S : Service σ) (α : Type) where
  | done (a : α)
  | call (c : S.Call) (next : S.Answer c → Script S α)

variable {σ α β ε : Type} {S : Service σ}

namespace Script

def bind : Script S α → (α → Script S β) → Script S β
  | .done a, f => f a
  | .call c next, f => .call c fun x => (next x).bind f

instance : Monad (Script S) where
  pure := .done
  bind := bind

def ask (c : S.Call) : Script S (S.Answer c) := .call c .done

-- How a program may end: with a result, or stopped on the way.
inductive Runs : Script S α → σ → Option α → σ → Prop where
  | stopped (prog : Script S α) (s : σ) : Runs prog s none s
  | done (a : α) (s : σ) : Runs (.done a) s (some a) s
  | call {c : S.Call} {next : S.Answer c → Script S α} {s s' s'' : σ} {x : S.Answer c} {r : Option α}
      (hdoes : S.Does c s x s') (hnext : Runs (next x) s' r s'') : Runs (.call c next) s r s''

section Runs

variable {s s' s'' : σ}

@[simp] theorem runs_done {a b : α} : Runs (.done a : Script S α) s (some b) s' ↔ b = a ∧ s' = s := by
  constructor
  · intro h
    cases h
    exact ⟨rfl, rfl⟩
  · rintro ⟨rfl, rfl⟩
    exact .done b s'

theorem runs_call {c : S.Call} {next : S.Answer c → Script S α} {a : α} :
    Runs (.call c next) s (some a) s'' ↔ ∃ x s', S.Does c s x s' ∧ Runs (next x) s' (some a) s'' := by
  refine ⟨fun h => ?_, fun ⟨x, s', hdoes, hnext⟩ => .call hdoes hnext⟩
  cases h with
  | call hdoes hnext => exact ⟨_, _, hdoes, hnext⟩

theorem runs_ask {c : S.Call} {x : S.Answer c} :
    Runs (ask c) s (some x) s' ↔ S.Does c s x s' := by
  simp [ask, runs_call]

-- A result comes by way of the results of the parts.
theorem runs_bind {prog : Script S α} {f : α → Script S β} {b : β} : Runs (prog.bind f) s (some b) s'' ↔
    ∃ a s', Runs prog s (some a) s' ∧ Runs (f a) s' (some b) s'' := by
  induction prog generalizing s with
  | done a =>
      constructor
      · exact fun h => ⟨a, s, .done a s, h⟩
      · rintro ⟨a', s', hdone, hf⟩
        obtain ⟨rfl, rfl⟩ := runs_done.mp hdone
        exact hf
  | call c next ih =>
      simp only [bind, runs_call, ih]
      constructor
      · rintro ⟨x, s₁, hdoes, a, s', hnext, hf⟩
        exact ⟨a, s', ⟨x, s₁, hdoes, hnext⟩, hf⟩
      · rintro ⟨a, s', ⟨x, s₁, hdoes, hnext⟩, hf⟩
        exact ⟨x, s₁, hdoes, a, s', hnext, hf⟩

end Runs

-- However the program ends, `inv` holds; and if it ends with a result, `post` does.
def Holds (inv : σ → Prop) (post : α → σ → Prop) (prog : Script S α) (s : σ) : Prop :=
  ∀ r s', Runs prog s r s' → inv s' ∧ ∀ a, r = some a → post a s'

namespace Holds

variable {inv : σ → Prop} {post post' mid : α → σ → Prop} {prog : Script S α} {s : σ}

theorem done {a : α} (hinv : inv s) (hpost : post a s) : Holds inv post (.done a : Script S α) s := by
  intro r s' h
  cases h with
  | stopped => exact ⟨hinv, fun _ h => nomatch h⟩
  | done =>
      refine ⟨hinv, fun a' h => ?_⟩
      cases h
      exact hpost

theorem call {c : S.Call} {next : S.Answer c → Script S α} (hinv : inv s)
    (hnext : ∀ x s', S.Does c s x s' → Holds inv post (next x) s') : Holds inv post (.call c next) s := by
  intro r s' h
  cases h with
  | stopped => exact ⟨hinv, fun _ h => nomatch h⟩
  | call hdoes hruns => exact hnext _ _ hdoes _ _ hruns

theorem start (h : Holds inv post prog s) : inv s := (h none s (.stopped prog s)).1

theorem mono (h : Holds inv post prog s) (hpost : ∀ a s', inv s' → post a s' → post' a s') :
    Holds inv post' prog s := by
  intro r s' hruns
  obtain ⟨hinv, hdone⟩ := h r s' hruns
  exact ⟨hinv, fun a ha => hpost a s' hinv (hdone a ha)⟩

theorem bind {post : β → σ → Prop} {f : α → Script S β} (h : Holds inv mid prog s)
    (hnext : ∀ a s', inv s' → mid a s' → Holds inv post (f a) s') : Holds inv post (prog.bind f) s := by
  induction prog generalizing s with
  | done a =>
      obtain ⟨hinv, hmid⟩ := h (some a) s (.done a s)
      exact hnext a s hinv (hmid a rfl)
  | call c next ih =>
      refine call h.start fun x s' hdoes => ih x fun r s'' hruns => ?_
      exact h r s'' (.call hdoes hruns)

theorem ask {c : S.Call} {post : S.Answer c → σ → Prop} (hinv : inv s)
    (hdoes : ∀ x s', S.Does c s x s' → inv s' ∧ post x s') : Holds inv post (ask c) s :=
  call hinv fun x s' h => done (hdoes x s' h).1 (hdoes x s' h).2

end Holds

-- A program that makes only calls of one kind.
def Only (ok : S.Call → Prop) : Script S α → Prop
  | .done _ => True
  | .call c next => ok c ∧ ∀ x, (next x).Only ok

section Only

variable {ok : S.Call → Prop} {inv : σ → Prop} {prog : Script S α} {s : σ}

theorem Only.bind {f : α → Script S β} (h : prog.Only ok) (hf : ∀ a, (f a).Only ok) :
    (prog.bind f).Only ok := by
  induction prog with
  | done a => exact hf a
  | call c next ih => exact ⟨h.1, fun x => ih x (h.2 x)⟩

-- What every call of the kind keeps, the program keeps.
theorem Only.holds (h : prog.Only ok) (hkeep : ∀ c s x s', ok c → S.Does c s x s' → inv s → inv s')
    (hs : inv s) : Holds inv (fun _ _ => True) prog s := by
  induction prog generalizing s with
  | done a => exact Holds.done hs trivial
  | call c next ih => exact Holds.call hs fun x s' hdoes => ih x (h.2 x) (hkeep c s x s' h.1 hdoes hs)

end Only

end Script

-- Programs that may fail, as a call of theirs does or by themselves.
abbrev Attempt (S : Service σ) (ε α : Type) := ExceptT ε (Script S) α

namespace Attempt

-- It may come to this result.
def Succeeds (act : Attempt S ε α) (s : σ) (a : α) (s' : σ) : Prop := Script.Runs act.run s (some (.ok a)) s'

section Succeeds

variable {s s' s'' : σ}

@[simp] theorem succeeds_pure {a b : α} :
    Succeeds (Pure.pure a : Attempt S ε α) s b s' ↔ b = a ∧ s' = s :=
  Script.runs_done.trans (and_congr_left' (by rw [Except.ok.injEq]))

@[simp] theorem succeeds_throw {e : ε} {a : α} :
    ¬ Succeeds (MonadExcept.throw e : Attempt S ε α) s a s' := by
  intro h
  cases (Script.runs_done.mp h).1

@[simp] theorem succeeds_bind {act : Attempt S ε α} {f : α → Attempt S ε β} {b : β} :
    Succeeds (act >>= f) s b s'' ↔ ∃ a s', Succeeds act s a s' ∧ Succeeds (f a) s' b s'' := by
  refine Script.runs_bind.trans ⟨?_, fun ⟨a, s', hact, hf⟩ => ⟨.ok a, s', hact, hf⟩⟩
  rintro ⟨r, s', hact, hf⟩
  cases r with
  | ok a => exact ⟨a, s', hact, hf⟩
  | error e => cases (Script.runs_done.mp hf).1

theorem succeeds_lift {prog : Script S α} {a : α} :
    Succeeds (ExceptT.lift prog : Attempt S ε α) s a s' ↔ Script.Runs prog s (some a) s' := by
  refine Script.runs_bind.trans ⟨?_, fun h => ⟨a, s', h, .done _ s'⟩⟩
  rintro ⟨b, s₁, hprog, hdone⟩
  obtain ⟨hb, rfl⟩ := Script.runs_done.mp hdone
  cases hb
  exact hprog

end Succeeds

-- However it ends, `inv` holds; `ok` holds of a result, and `failed` where it fails.
def Ends (inv : σ → Prop) (ok : α → σ → Prop) (failed : σ → Prop) (act : Attempt S ε α) (s : σ) : Prop :=
  Script.Holds inv (fun r s' => match r with
    | .ok a => ok a s'
    | .error _ => failed s') act.run s

namespace Ends

variable {inv : σ → Prop} {ok mid : α → σ → Prop} {failed : σ → Prop} {act : Attempt S ε α} {s : σ}

theorem pure {a : α} (hinv : inv s) (hok : ok a s) :
    Ends inv ok failed (Pure.pure a : Attempt S ε α) s := Script.Holds.done hinv hok

theorem throw {e : ε} (hinv : inv s) (hfailed : failed s) :
    Ends inv ok failed (MonadExcept.throw e : Attempt S ε α) s := Script.Holds.done hinv hfailed

theorem bind {ok : β → σ → Prop} {f : α → Attempt S ε β} (h : Ends inv mid failed act s)
    (hnext : ∀ a s', inv s' → mid a s' → Ends inv ok failed (f a) s') :
    Ends inv ok failed (act >>= f) s := by
  refine Script.Holds.bind h fun r s' hinv hr => ?_
  cases r with
  | ok a => exact hnext a s' hinv hr
  | error e => exact Script.Holds.done hinv hr

-- What comes after a refusal does not matter.
theorem refused {ok : β → σ → Prop} {e : ε} {f : α → Attempt S ε β} (hinv : inv s) (hfailed : failed s) :
    Ends inv ok failed ((MonadExcept.throw e : Attempt S ε α) >>= f) s :=
  bind (@throw _ _ _ _ inv (fun _ _ => False) failed s e hinv hfailed) fun _ _ _ hfalse => hfalse.elim

theorem mono {ok' : α → σ → Prop} {failed' : σ → Prop} (h : Ends inv ok failed act s)
    (hok : ∀ a s', inv s' → ok a s' → ok' a s') (hfailed : ∀ s', inv s' → failed s' → failed' s') :
    Ends inv ok' failed' act s := by
  refine Script.Holds.mono h fun r s' hinv hr => ?_
  cases r with
  | ok a => exact hok a s' hinv hr
  | error e => exact hfailed s' hinv hr

-- A program that cannot fail.
theorem lift {prog : Script S α} (h : Script.Holds inv mid prog s) :
    Ends inv mid failed (ExceptT.lift prog : Attempt S ε α) s :=
  Script.Holds.bind h fun _ _ hinv hmid => Script.Holds.done hinv hmid

end Ends

-- One that makes only calls of one kind.
abbrev Only (ok : S.Call → Prop) (act : Attempt S ε α) : Prop := Script.Only ok act.run

section Only

variable {ok : S.Call → Prop} {act : Attempt S ε α} {inv : σ → Prop} {s : σ}

theorem Only.pure (a : α) : Only ok (Pure.pure a : Attempt S ε α) := trivial

theorem Only.throw (e : ε) : Only ok (MonadExcept.throw e : Attempt S ε α) := trivial

theorem Only.bind {f : α → Attempt S ε β} (h : Only ok act) (hf : ∀ a, Only ok (f a)) :
    Only ok (act >>= f) := by
  refine Script.Only.bind h fun r => ?_
  cases r with
  | ok a => exact hf a
  | error e => exact trivial

theorem Only.lift {prog : Script S α} (h : prog.Only ok) : Only ok (ExceptT.lift prog : Attempt S ε α) :=
  Script.Only.bind h fun _ => trivial

theorem Only.ends (h : Only ok act) (hkeep : ∀ c s x s', ok c → S.Does c s x s' → inv s → inv s')
    (hs : inv s) : Ends inv (fun _ _ => True) (fun _ => True) act s := by
  refine Script.Holds.mono (Script.Only.holds h hkeep hs) fun r s' _ _ => ?_
  cases r <;> exact trivial

end Only

end Attempt

section Chained

-- Runs of whatever can be done with a state, with a record of each.
def Chained (Does : σ → α → β → σ → Prop) : σ → List (Taken σ α β) → Prop
  | _, [] => True
  | s, x :: rest => x.before = s ∧ Does x.before x.input x.output x.after ∧ Chained Does x.after rest

variable {Does : σ → α → β → σ → Prop} {s : σ} {log : List (Taken σ α β)}

theorem Chained.does (h : Chained Does s log) : ∀ x ∈ log, Does x.before x.input x.output x.after := by
  induction log generalizing s with
  | nil => simp
  | cons x rest ih => exact List.forall_mem_cons.mpr ⟨h.2.1, ih h.2.2⟩

theorem Chained.right {pre post : List (Taken σ α β)} (h : Chained Does s (pre ++ post)) :
    ∃ s', Chained Does s' post := by
  induction pre generalizing s with
  | nil => exact ⟨s, h⟩
  | cons x pre ih => exact ih h.2.2

-- From one thing that is done to a later one, with all that is done from the one to the other.
theorem Chained.between {R : σ → σ → Prop} (htrans : ∀ {s s' s''}, R s s' → R s' s'' → R s s'')
    {x y : Taken σ α β} {mid post : List (Taken σ α β)} (h : Chained Does s (x :: (mid ++ y :: post)))
    (hall : ∀ z ∈ x :: mid, R z.before z.after) : R x.before y.before := by
  induction mid generalizing s x with
  | nil =>
      obtain ⟨rfl, -, hy⟩ := h
      rw [hy.1]
      exact hall x List.mem_cons_self
  | cons z mid ih =>
      obtain ⟨rfl, -, hrest⟩ := h
      have hnext := ih hrest fun w hw => hall w (List.mem_cons_of_mem x hw)
      rw [show z.before = x.after from hrest.1] at hnext
      exact htrans (hall x List.mem_cons_self) hnext

-- What relates the states around everything that is done relates any two states of a run.
theorem Chained.pairwise {R : σ → σ → Prop} (h : Chained Does s log) (hrefl : ∀ s, R s s)
    (htrans : ∀ {s s' s''}, R s s' → R s' s'' → R s s'')
    (hdoes : ∀ {s a b s'}, Does s a b s' → R s s') :
    (∀ x ∈ log, R s x.before ∧ R s x.after) ∧ log.Pairwise fun x y => R x.after y.before := by
  induction log generalizing s with
  | nil => simp
  | cons x rest ih =>
      obtain ⟨rfl, hx, hrest⟩ := h
      obtain ⟨hall, hpairs⟩ := ih hrest
      have hafter := hdoes hx
      refine ⟨List.forall_mem_cons.mpr ⟨⟨hrefl _, hafter⟩, fun y hy => ?_⟩,
        List.pairwise_cons.mpr ⟨fun y hy => (hall y hy).1, hpairs⟩⟩
      exact ⟨htrans hafter (hall y hy).1, htrans hafter (hall y hy).2⟩

end Chained

end Zbacs.Lib
