import Zbacs.Onchain.UserOperation

namespace Zbacs.Onchain

open Zbacs.Lib

-- Several bundler endpoints, and the wait for a receipt through them.

structure UserOpReceipt where
  success : Bool
  actualGasUsed : U256
  transactionHash : FixedBytes 32
  blockNumber : U256
deriving DecidableEq

def unreachable {α : Type} : Except ChainError α → Bool
  | .error .unreachable => true
  | _ => false

namespace Failover

variable {α : Type}

-- `each`: an endpoint that cannot be reached is skipped, one that answers is believed. The answers
-- are in the order the endpoints are tried, had they been asked.
def eachFrom (last : Except ChainError α) : List (Except ChainError α) → Except ChainError α
  | [] => last
  | answer :: rest => if unreachable answer then eachFrom answer rest else answer

def each (answers : List (Except ChainError α)) : Except ChainError α :=
  eachFrom (.error .unreachable) answers

end Failover

-- One lookup of the receipt: what each endpoint has to say, and the time after it.
structure Lookup where
  answers : List (Except ChainError (Option UserOpReceipt))
  now : Nat

-- Lookups follow one another as long as there is no receipt and time is left; `none` if the wait is
-- not over after the last of these.
def UserOpSender.wait (deadline : Nat) : List Lookup → Option (Except ChainError UserOpReceipt)
  | [] => none
  | l :: rest => match Failover.each l.answers with
    | .error e => some (.error e)
    | .ok (some r) => some (.ok r)
    | .ok none => if deadline ≤ l.now then some (.error .unreachable) else wait deadline rest

-- What became of one operation: the endpoints' answers when it was sent, and the wait.
structure Course where
  send : List (Except ChainError (FixedBytes 32))
  deadline : Nat
  lookups : List Lookup

namespace Course

-- The endpoint that took the operation: none before it could be reached.
structure AcceptedBy (c : Course) (k : Nat) : Prop where
  accepted : ∃ hash, c.send[k]? = some (.ok hash)
  first : ∀ answer ∈ c.send.take k, unreachable answer = true

-- It stays reachable and has this receipt and no other; it has it within the timeout, and from
-- then on.
structure Holds (c : Course) (k : Nat) (r : UserOpReceipt) : Prop where
  accepted : c.AcceptedBy k
  reachable : ∀ l ∈ c.lookups, l.answers[k]? = some (.ok none) ∨ l.answers[k]? = some (.ok (some r))
  included : ∃ before l after, c.lookups = before ++ l :: after ∧
    (∀ x ∈ before, x.now < c.deadline) ∧ ∀ x ∈ l :: after, x.answers[k]? = some (.ok (some r))

-- What the first endpoint says that is asked before this one and answers.
def ahead (k : Nat) (l : Lookup) : Option (Except ChainError (Option UserOpReceipt)) :=
  (l.answers.take k).find? fun answer => !unreachable answer

-- At some lookup nobody is ahead of the endpoint that has the receipt, or it says the same; until
-- then whoever is ahead knows nothing, and time is left.
def Heard (c : Course) (k : Nat) (r : UserOpReceipt) : Prop :=
  ∃ before l after, c.lookups = before ++ l :: after ∧
    (∀ x ∈ before, x.now < c.deadline ∧ (ahead k x = none ∨ ahead k x = some (.ok none))) ∧
    (ahead k l = none ∧ l.answers[k]? = some (.ok (some r)) ∨ ahead k l = some (.ok (some r)))

end Course

section Wait

variable {α : Type} {answers : List (Except ChainError α)} {k : Nat} {answer : Except ChainError α}

theorem eachFrom_append (last : Except ChainError α) (rest : List (Except ChainError α)) :
    Failover.eachFrom last (answers ++ rest) =
      match answers.find? fun answer => !unreachable answer with
      | some answer => answer
      | none => Failover.eachFrom (answers.getLastD last) rest := by
  induction answers generalizing last with
  | nil => rfl
  | cons answer answers ih =>
      rw [List.cons_append, Failover.eachFrom]
      cases h : unreachable answer with
      | true => rw [if_pos rfl, ih, List.find?_cons_of_neg (by simp [h]), List.getLastD_cons]
      | false => rw [if_neg (by decide), List.find?_cons_of_pos (by simp [h])]

-- With a reachable endpoint in the list, it or one before it is believed.
theorem each_eq (hk : answers[k]? = some answer) (hreach : unreachable answer = false) :
    Failover.each answers =
      ((answers.take k).find? fun answer => !unreachable answer).getD answer := by
  have hsplit : answers = answers.take k ++ answer :: answers.drop (k + 1) := by
    obtain ⟨hlt, rfl⟩ := List.getElem?_eq_some_iff.mp hk
    rw [List.getElem_cons_drop, List.take_append_drop]
  rw [Failover.each]
  nth_rewrite 1 [hsplit]
  rw [eachFrom_append, Failover.eachFrom, hreach]
  cases (answers.take k).find? fun answer => !unreachable answer <;> rfl

variable {c : Course} {r : UserOpReceipt} {l : Lookup}

-- The wait ends with a receipt at the first lookup that brings one, if it lasts until then.
theorem wait_eq_ok {deadline : Nat} {lookups : List Lookup}
    (h : UserOpSender.wait deadline lookups = some (.ok r)) :
    ∃ before l after, lookups = before ++ l :: after ∧
      (∀ x ∈ before, x.now < deadline ∧ Failover.each x.answers = .ok none) ∧
      Failover.each l.answers = .ok (some r) := by
  induction lookups with
  | nil => cases h
  | cons l lookups ih =>
      rw [UserOpSender.wait] at h
      cases heach : Failover.each l.answers with
      | error e => simp [heach] at h
      | ok found =>
          cases found with
          | some r' =>
              simp only [heach, Option.some.injEq, Except.ok.injEq] at h
              subst h
              exact ⟨[], l, lookups, rfl, fun x hx => absurd hx List.not_mem_nil, heach⟩
          | none =>
              simp only [heach] at h
              split_ifs at h with hlate
              · cases h
              · obtain ⟨before, l', after, rfl, hbefore, hl'⟩ := ih h
                refine ⟨l :: before, l', after, rfl, ?_, hl'⟩
                rintro x hx
                rcases List.mem_cons.mp hx with rfl | hx
                · exact ⟨Nat.not_le.mp hlate, heach⟩
                · exact hbefore x hx

theorem wait_of_each {deadline : Nat} {before after : List Lookup}
    (hbefore : ∀ x ∈ before, x.now < deadline ∧
      (Failover.each x.answers = .ok none ∨ Failover.each x.answers = .ok (some r)))
    (hl : Failover.each l.answers = .ok (some r)) :
    UserOpSender.wait deadline (before ++ l :: after) = some (.ok r) := by
  induction before with
  | nil => rw [List.nil_append, UserOpSender.wait, hl]
  | cons x before ih =>
      obtain ⟨htime, hx⟩ := hbefore x List.mem_cons_self
      rw [List.cons_append, UserOpSender.wait]
      rcases hx with hx | hx
      · rw [hx]
        dsimp only
        rw [if_neg (by omega)]
        exact ih fun y hy => hbefore y (List.mem_cons_of_mem _ hy)
      · rw [hx]

theorem each_lookup (h : c.Holds k r) (hl : l ∈ c.lookups) :
    ∃ own, (own = .ok none ∨ own = .ok (some r)) ∧ l.answers[k]? = some own ∧
      Failover.each l.answers = (Course.ahead k l).getD own := by
  rcases h.reachable l hl with hown | hown
  · exact ⟨_, .inl rfl, hown, each_eq hown rfl⟩
  · exact ⟨_, .inr rfl, hown, each_eq hown rfl⟩

-- A lookup brings the receipt if whoever is ahead says it, or else the endpoint itself.
theorem each_eq_receipt (h : c.Holds k r) (hl : l ∈ c.lookups) :
    Failover.each l.answers = .ok (some r) ↔
      Course.ahead k l = none ∧ l.answers[k]? = some (.ok (some r)) ∨
        Course.ahead k l = some (.ok (some r)) := by
  obtain ⟨own, -, hown, heq⟩ := each_lookup h hl
  rw [heq, hown]
  cases Course.ahead k l <;> simp

-- It leaves the wait going only if whoever is ahead knows nothing.
theorem ahead_of_each (h : c.Holds k r) (hl : l ∈ c.lookups) (heach : Failover.each l.answers = .ok none) :
    Course.ahead k l = none ∨ Course.ahead k l = some (.ok none) := by
  obtain ⟨own, -, -, heq⟩ := each_lookup h hl
  rw [heq] at heach
  cases hahead : Course.ahead k l with
  | none => exact .inl rfl
  | some answer =>
      rw [hahead] at heach
      exact .inr (congrArg some heach)

theorem each_of_ahead (h : c.Holds k r) (hl : l ∈ c.lookups)
    (hahead : Course.ahead k l = none ∨ Course.ahead k l = some (.ok none)) :
    Failover.each l.answers = .ok none ∨ Failover.each l.answers = .ok (some r) := by
  obtain ⟨own, hknown, -, heq⟩ := each_lookup h hl
  rw [heq]
  rcases hahead with hahead | hahead
  · rw [hahead]
    exact hknown
  · rw [hahead]
    exact .inl rfl

-- The receipt is found exactly if it is heard: nobody who knows nothing stands in front of the
-- endpoint that has it for the rest of the wait, and nobody in front refuses the lookup.
theorem wait_finds_iff (h : c.Holds k r) :
    UserOpSender.wait c.deadline c.lookups = some (.ok r) ↔ c.Heard k r := by
  constructor
  · intro hwait
    obtain ⟨before, l, after, hsplit, hbefore, hl⟩ := wait_eq_ok hwait
    have hmem : ∀ x ∈ before ++ l :: after, x ∈ c.lookups := fun x hx => hsplit ▸ hx
    refine ⟨before, l, after, hsplit, fun x hx => ?_, ?_⟩
    · obtain ⟨htime, heach⟩ := hbefore x hx
      exact ⟨htime, ahead_of_each h (hmem x (List.mem_append_left _ hx)) heach⟩
    · exact (each_eq_receipt h (hmem l (List.mem_append_right _ List.mem_cons_self))).mp hl
  · rintro ⟨before, l, after, hsplit, hbefore, hl⟩
    have hmem : ∀ x ∈ before ++ l :: after, x ∈ c.lookups := fun x hx => hsplit ▸ hx
    rw [hsplit]
    refine wait_of_each (fun x hx => ?_) ?_
    · obtain ⟨htime, hahead⟩ := hbefore x hx
      exact ⟨htime, each_of_ahead h (hmem x (List.mem_append_left _ hx)) hahead⟩
    · exact (each_eq_receipt h (hmem l (List.mem_append_right _ List.mem_cons_self))).mpr hl

end Wait

-- Two endpoints, of which the second took the operation while the first was away.

def mined : UserOpReceipt := ⟨true, 1, .replicate 32 7, 5⟩

def lookup (first second : Except ChainError (Option UserOpReceipt)) (now : Nat) : Lookup :=
  ⟨[first, second], now⟩

def stillAway : Course where
  send := [.error .unreachable, .ok (.replicate 32 1)]
  deadline := 120
  lookups :=
    [lookup (.error .unreachable) (.ok none) 0, lookup (.error .unreachable) (.ok (some mined)) 2]

theorem stillAway_accepted : stillAway.AcceptedBy 1 := by
  refine ⟨⟨_, rfl⟩, ?_⟩
  rintro answer hanswer
  rw [List.mem_singleton.mp hanswer]
  rfl

theorem stillAway_found : UserOpSender.wait 120 stillAway.lookups = some (.ok mined) := by
  have hholds : stillAway.Holds 1 mined := by
    refine ⟨stillAway_accepted, ?_, [lookup (.error .unreachable) (.ok none) 0], _, [], rfl, ?_, ?_⟩
    · rintro l hl
      rcases List.mem_cons.mp hl with rfl | hl
      · exact .inl rfl
      · rw [List.mem_singleton.mp hl]
        exact .inr rfl
    · rintro x hx
      rw [List.mem_singleton.mp hx]
      decide
    · rintro x hx
      rw [List.mem_singleton.mp hx]
      rfl
  refine (wait_finds_iff hholds).mpr ⟨[lookup (.error .unreachable) (.ok none) 0], _, [], rfl, ?_,
    .inl ⟨rfl, rfl⟩⟩
  rintro x hx
  rw [List.mem_singleton.mp hx]
  exact ⟨by decide, .inl rfl⟩

-- The first one comes back, and has never seen the operation.
def cameBack : Course :=
  { stillAway with
    lookups := [lookup (.ok none) (.ok (some mined)) 0, lookup (.ok none) (.ok (some mined)) 120] }

theorem not_wait_finds : ¬∀ (c : Course) k r, c.Holds k r →
    UserOpSender.wait c.deadline c.lookups = some (.ok r) := by
  intro h
  have haccepted : cameBack.AcceptedBy 1 := ⟨stillAway_accepted.accepted, stillAway_accepted.first⟩
  have hanswers : ∀ l ∈ cameBack.lookups, l.answers[1]? = some (.ok (some mined)) := by
    rintro l hl
    rcases List.mem_cons.mp hl with rfl | hl
    · rfl
    · rw [List.mem_singleton.mp hl]
      rfl
  have hholds : cameBack.Holds 1 mined :=
    ⟨haccepted, fun l hl => .inr (hanswers l hl), [], _, _, rfl,
      fun x hx => absurd hx List.not_mem_nil, hanswers⟩
  have hfound := h cameBack 1 mined hholds
  cases hfound

end Zbacs.Onchain
