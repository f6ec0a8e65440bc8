import Zbacs.Agent.Request

namespace Zbacs.Agent

open Zbacs.Lib Zbacs.Proto

-- The agent's side of a submission: the same bytes to one endpoint after the other, as often as
-- the policy says, until one acknowledges them or refuses them for good.

inductive Delivery where
  | queued (id : FixedBytes 16)
  | alreadyDelivered
deriving DecidableEq

inductive SubmitError where
  | unreachable
  | badResponse
  | refused (code : ErrorCode)
deriving DecidableEq, Repr

-- Whether this wire error is worth another attempt.
def retryable : ErrorCode → Bool
  | .rateLimited | .internal => true
  | .stale => false
  | .unauthenticated | .unknownDevice | .replayed | .malformed | .tooLarge | .notFound => false

-- What comes back of an attempt: nothing, something that is not CBOR, or the relay's answer.
inductive Response where
  | lost
  | garbled
  | ack (ack : Ack)
deriving DecidableEq

-- One attempt at one endpoint. Whether its relay queues the message is one thing, and what is
-- heard of it another.
structure Exchange where
  queued : Bool
  response : Response
deriving DecidableEq

def submitOnce (x : Exchange) : Except SubmitError Delivery :=
  match x.response with
  | .lost => .error .unreachable
  | .garbled => .error .badResponse
  | .ack ack => match ack.ok, ack.error with
    | true, _ => .ok (.queued (ack.id.getD (.replicate 16 0)))
    -- the relay remembers this envelope, so an attempt before this one reached it
    | false, some .replayed => .ok .alreadyDelivered
    | false, some code => .error (.refused code)
    | false, none => .error .badResponse

-- What a submission comes to, and the attempts that were made for it.
structure Submitted where
  result : Except ClientError Delivery
  made : List Exchange

def Submitted.after (x : Exchange) (s : Submitted) : Submitted := { s with made := x :: s.made }

-- The attempts in the order they are made: every endpoint gets its share before the next one.
def attempts (perEndpoint : UInt32) (endpoints : List (Nat → Exchange)) : List Exchange :=
  endpoints.flatMap fun exchange => (List.range perEndpoint.toNat).map exchange

def submit : List Exchange → Submitted
  | [] => ⟨.error .unreachable, []⟩
  | x :: rest => match submitOnce x with
    | .ok delivery => ⟨.ok delivery, [x]⟩
    | .error (.refused code) =>
      if retryable code then (submit rest).after x else ⟨.error .refused, [x]⟩
    | .error _ => (submit rest).after x

-- Signed once and submitted. A message that cannot be signed goes nowhere.
def signAndSubmit (signs : Bool) (exchanges : List Exchange) : Submitted :=
  if signs then submit exchanges else ⟨.error .other, []⟩

namespace Exchange

def acknowledged (x : Exchange) : Bool :=
  match x.response with
  | .lost | .garbled => false
  | .ack ack => ack.ok || ack.error = some .replayed

def refusedForGood (x : Exchange) : Bool :=
  match x.response with
  | .lost | .garbled => false
  | .ack ack => !ack.ok && ack.error.any fun code => code ≠ .replayed && !retryable code

-- Whether the client stops here.
def settles (x : Exchange) : Bool := x.acknowledged || x.refusedForGood

end Exchange

-- The client comes to an attempt like this.
def ComesTo (p : Exchange → Bool) (exchanges : List Exchange) : Prop :=
  ∃ before x rest, exchanges = before ++ x :: rest ∧ (∀ y ∈ before, y.settles = false) ∧ p x = true

section

variable {p : Exchange → Bool} {x : Exchange} {exchanges rest : List Exchange}

theorem comesTo_nil : ¬ComesTo p [] := by
  rintro ⟨before, x, rest, h, -⟩
  exact absurd h (by simp)

theorem comesTo_cons : ComesTo p (x :: rest) ↔ p x = true ∨ x.settles = false ∧ ComesTo p rest := by
  constructor
  · rintro ⟨before, y, rest', h, hbefore, hy⟩
    cases before with
    | nil =>
        obtain ⟨rfl, rfl⟩ := List.cons.inj h
        exact .inl hy
    | cons z before =>
        obtain ⟨rfl, rfl⟩ := List.cons.inj h
        exact .inr ⟨hbefore _ List.mem_cons_self, before, y, rest', rfl,
          fun w hw => hbefore w (List.mem_cons_of_mem _ hw), hy⟩
  · rintro (hx | ⟨hx, before, y, rest', rfl, hbefore, hy⟩)
    · exact ⟨[], x, rest, rfl, by simp, hx⟩
    · exact ⟨x :: before, y, rest', rfl, List.forall_mem_cons.mpr ⟨hx, hbefore⟩, hy⟩

theorem comesTo_map {α : Type} {f : α → Exchange} {all : List α} : ComesTo p (all.map f) ↔
    ∃ vs v ws, all = vs ++ v :: ws ∧ (∀ w ∈ vs, (f w).settles = false) ∧ p (f v) = true := by
  constructor
  · rintro ⟨before, x, rest, hsplit, hbefore, hx⟩
    obtain ⟨vs, rest', rfl, rfl, hrest⟩ := List.map_eq_append_iff.mp hsplit
    obtain ⟨v, ws, rfl, rfl, -⟩ := List.map_eq_cons_iff.mp hrest
    exact ⟨vs, v, ws, rfl, fun w hw => hbefore _ (List.mem_map_of_mem hw), hx⟩
  · rintro ⟨vs, v, ws, rfl, hbefore, hv⟩
    exact ⟨vs.map f, f v, ws.map f, by simp, List.forall_mem_map.mpr hbefore, hv⟩

-- One attempt: the client stops with a delivery, stops with a refusal, or goes on.
theorem submit_cons_cases (x : Exchange) (rest : List Exchange) :
    (x.acknowledged = true ∧ ∃ delivery, submit (x :: rest) = ⟨.ok delivery, [x]⟩) ∨
    (x.acknowledged = false ∧ x.settles = true ∧ submit (x :: rest) = ⟨.error .refused, [x]⟩) ∨
    (x.acknowledged = false ∧ x.settles = false ∧ submit (x :: rest) = (submit rest).after x) := by
  obtain ⟨queued, response⟩ := x
  cases response with
  | lost => exact .inr (.inr ⟨rfl, rfl, rfl⟩)
  | garbled => exact .inr (.inr ⟨rfl, rfl, rfl⟩)
  | ack ack =>
      obtain ⟨ok, id, error⟩ := ack
      cases ok with
      | true => exact .inl ⟨rfl, _, rfl⟩
      | false => cases error with
        | none => exact .inr (.inr ⟨rfl, rfl, rfl⟩)
        | some code => cases code with
          | replayed => exact .inl ⟨rfl, _, rfl⟩
          | rateLimited | internal => exact .inr (.inr ⟨rfl, rfl, rfl⟩)
          | unauthenticated | unknownDevice | stale | malformed | tooLarge | notFound =>
              exact .inr (.inl ⟨rfl, rfl, rfl⟩)

-- A submission succeeds if the client comes to an attempt that is acknowledged.
theorem submit_ok_iff : (∃ delivery, (submit exchanges).result = .ok delivery) ↔
    ComesTo Exchange.acknowledged exchanges := by
  induction exchanges with
  | nil =>
      refine ⟨?_, fun h => absurd h comesTo_nil⟩
      rintro ⟨delivery, h⟩
      cases h
  | cons x rest ih =>
      rw [comesTo_cons]
      obtain ⟨hack, delivery, h⟩ | ⟨hack, hsettles, h⟩ | ⟨hack, hsettles, h⟩ := submit_cons_cases x rest
      · exact ⟨fun _ => .inl hack, fun _ => ⟨delivery, by rw [h]⟩⟩
      · rw [h, hack, hsettles]
        simp
      · rw [h, hack, hsettles, ← ih]
        simp [Submitted.after]

-- The attempts that were made are those the client came to.
theorem exists_made_iff : (∃ x ∈ (submit exchanges).made, p x = true) ↔ ComesTo p exchanges := by
  induction exchanges with
  | nil =>
      refine ⟨?_, fun h => absurd h comesTo_nil⟩
      rintro ⟨x, hx, -⟩
      cases hx
  | cons x rest ih =>
      rw [comesTo_cons]
      obtain ⟨hack, delivery, h⟩ | ⟨hack, hsettles, h⟩ | ⟨hack, hsettles, h⟩ := submit_cons_cases x rest
      · have hsettles : x.settles = true := by rw [Exchange.settles, hack, Bool.true_or]
        rw [h, hsettles]
        simp
      · rw [h, hsettles]
        simp
      · rw [h, hsettles, ← ih]
        simp [Submitted.after]

end

end Zbacs.Agent
