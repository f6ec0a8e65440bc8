import Zbacs.Agent.RelayClient
import Zbacs.Relay.Courses

namespace Zbacs.Agent

open Zbacs.Lib Zbacs.Proto Zbacs.Relay

-- A client before the relays it is configured with. Calls and answers get lost on the way, and at
-- every relay the handlers of others go on meanwhile.

-- The turns each relay has taken so far, by the relay's number.
abbrev Fleet := Nat → List (Turn Arrival Tick)

inductive Hearing where
  | whole
  | garbled
  | lost
deriving DecidableEq, Repr

-- One call at one relay: whether it gets there, what goes on there until the client waits no
-- longer, and what gets back of the answer.
structure Contact where
  reached : Bool
  turns : List (Turn Arrival Tick)
  hearing : Hearing

def Contact.took (arrival : Arrival) (c : Contact) : List (Turn Arrival Tick) :=
  if c.reached then .start arrival :: c.turns else c.turns

-- A call with the relay it is made at and the turns that relay had taken before.
structure Visit where
  relay : Nat
  past : List (Turn Arrival Tick)
  contact : Contact

def Fleet.after (arrival : Arrival) (fleet : Fleet) (visits : List Visit) : Fleet := fun relay =>
  fleet relay ++ visits.flatMap fun v => if v.relay = relay then v.contact.took arrival else []

-- The calls one after the other, as if all of them were made.
def visits (arrival : Arrival) : List (Nat × Contact) → Fleet → List Visit
  | [], _ => []
  | (relay, contact) :: rest, fleet =>
      ⟨relay, fleet relay, contact⟩ ::
        visits arrival rest (fleet.after arrival [⟨relay, fleet relay, contact⟩])

-- Every endpoint gets its share of attempts before the next one.
def contacts (perEndpoint : UInt32) (endpoints : List (Nat × (Nat → Contact))) : List (Nat × Contact) :=
  endpoints.flatMap fun (relay, attempt) =>
    (List.range perEndpoint.toNat).map fun n => (relay, attempt n)

namespace Visit

variable (L : RelayLibraries) (arrival : Arrival)

def before (v : Visit) : Server := final (Server.turn L) v.past Server.start

-- The number its handler gets.
def index (v : Visit) : Nat := (v.before L).threads.length

def log (v : Visit) : List Served := trace (Server.turn L) (v.contact.took arrival) (v.before L)

-- Where its handler is when the client waits no longer.
def handler (v : Visit) : Option Handler :=
  if v.contact.reached then
    (final (Server.turn L) (v.contact.took arrival) (v.before L)).threads[v.index L]?
  else none

def response (v : Visit) : Response :=
  match v.contact.hearing, v.handler L arrival with
  | .whole, some (.replied ack) => .ack ack
  | .garbled, some (.replied _) => .garbled
  | _, _ => .lost

def exchange (v : Visit) : Exchange :=
  ⟨!(putBy (v.index L) (v.log L arrival)).isEmpty, v.response L arrival⟩

end Visit

section

variable (L : RelayLibraries)

-- `submit` and what it is sent over: the calls that are made, and how it ends.
structure SentOver where
  made : List Visit
  result : Except ClientError Delivery

def sendOver (endpoint : Endpoint) (body : Bytes) (calls : List (Nat × Contact)) (fleet : Fleet) : SentOver :=
  let all := visits (.post endpoint body) calls fleet
  let submitted := submit (all.map (Visit.exchange L (.post endpoint body)))
  ⟨all.take submitted.made.length, submitted.result⟩

def submitTo (perEndpoint : UInt32) (endpoints : List (Nat × (Nat → Contact))) (endpoint : Endpoint)
    (body : Bytes) (fleet : Fleet) : SentOver :=
  sendOver L endpoint body (contacts perEndpoint endpoints) fleet

-- How a read of an inbox at one relay goes: no answer or an error status, an answer that does not
-- get through whole, or what was handed out.
inductive Fetched where
  | failed
  | broken
  | envelopes (envelopes : List Envelope)
deriving DecidableEq

def Visit.fetched (query : InboxQuery) (v : Visit) : Fetched :=
  match v.contact.hearing, v.handler L (.inbox query) with
  | .whole, some (.handed envelopes) => .envelopes envelopes
  | .garbled, some (.handed _) => .broken
  | _, _ => .failed

end

-- The first relay that answers is the only one that is read.
def fetchInbox : List Fetched → Except ClientError (List Envelope)
  | [] => .error .unreachable
  | .failed :: rest => fetchInbox rest
  | .broken :: _ => .error .unreachable
  | .envelopes envelopes :: _ => .ok envelopes

section

variable (L : RelayLibraries) (query : InboxQuery)

-- The calls of a read that are made.
def readCalls : List Visit → List Visit
  | [] => []
  | v :: rest => match v.fetched L query with
    | .failed => v :: readCalls rest
    | .broken | .envelopes _ => [v]

def readFrom (perEndpoint : UInt32) (endpoints : List (Nat × (Nat → Contact))) (fleet : Fleet) :
    Except ClientError (List Envelope) × Fleet :=
  let all := visits (.inbox query) (contacts perEndpoint endpoints) fleet
  (fetchInbox (all.map (Visit.fetched L query)), fleet.after (.inbox query) (readCalls L query all))

-- A read, and what goes on at the relays before it.
structure Reading where
  meanwhile : Fleet
  endpoints : List (Nat × (Nat → Contact))

def Reading.begins (reading : Reading) (fleet : Fleet) : Fleet := fun relay =>
  fleet relay ++ reading.meanwhile relay

-- The inbox is read again and again, whatever comes of it.
def pollInbox (perEndpoint : UInt32) : List Reading → Fleet → List (Except ClientError (List Envelope))
  | [], _ => []
  | reading :: rest, fleet =>
      let (result, fleet) := readFrom L query perEndpoint reading.endpoints (reading.begins fleet)
      result :: pollInbox perEndpoint rest fleet

-- The calls of each read, as if all of them were made.
def polled (perEndpoint : UInt32) : List Reading → Fleet → List (List Visit)
  | [], _ => []
  | reading :: rest, fleet =>
      visits (.inbox query) (contacts perEndpoint reading.endpoints) (reading.begins fleet) ::
        polled perEndpoint rest (readFrom L query perEndpoint reading.endpoints (reading.begins fleet)).2

theorem pollInbox_eq (perEndpoint : UInt32) (readings : List Reading) (fleet : Fleet) :
    pollInbox L query perEndpoint readings fleet =
      (polled L query perEndpoint readings fleet).map fun all =>
        fetchInbox (all.map (Visit.fetched L query)) := by
  induction readings generalizing fleet with
  | nil => rfl
  | cons reading rest ih =>
      rw [pollInbox, polled, List.map_cons, ← ih]
      rfl

end

section Made

variable {p : Exchange → Bool} {exchanges : List Exchange}

-- The attempts that are made are the first ones.
theorem prefix_made (exchanges : List Exchange) : (submit exchanges).made <+: exchanges := by
  induction exchanges with
  | nil => exact List.prefix_refl _
  | cons x rest ih =>
      obtain ⟨-, delivery, h⟩ | ⟨-, -, h⟩ | ⟨-, -, h⟩ := submit_cons_cases x rest
      · rw [h]
        exact List.prefix_append [x] rest
      · rw [h]
        exact List.prefix_append [x] rest
      · rw [h]
        exact (List.prefix_cons_inj x).mpr ih

theorem made_eq_map {α : Type} (f : α → Exchange) (all : List α) :
    (submit (all.map f)).made = (all.take (submit (all.map f)).made.length).map f := by
  have hprefix := List.prefix_iff_eq_take.mp (prefix_made (all.map f))
  rwa [← List.map_take] at hprefix

theorem submit_ok_iff_made : (∃ delivery, (submit exchanges).result = .ok delivery) ↔
    ∃ x ∈ (submit exchanges).made, x.acknowledged = true :=
  submit_ok_iff.trans exists_made_iff.symm

end Made

section Visits

variable {arrival : Arrival} {calls : List (Nat × Contact)} {fleet : Fleet}

theorem after_append (fleet : Fleet) (vs ws : List Visit) :
    fleet.after arrival (vs ++ ws) = (fleet.after arrival vs).after arrival ws := by
  funext relay
  simp only [Fleet.after, List.flatMap_append, List.append_assoc]

-- A call begins where the calls before it have left its relay.
theorem past_of_visits {vs : List Visit} {v : Visit} {ws : List Visit}
    (h : visits arrival calls fleet = vs ++ v :: ws) : v.past = fleet.after arrival vs v.relay := by
  induction calls generalizing fleet vs with
  | nil => simp [visits] at h
  | cons call calls ih =>
      obtain ⟨relay, contact⟩ := call
      cases vs with
      | nil =>
          obtain ⟨rfl, -⟩ := List.cons.inj h
          exact (List.append_nil _).symm
      | cons w vs =>
          obtain ⟨rfl, htail⟩ := List.cons.inj h
          rw [ih htail, ← after_append]
          rfl

theorem Visit.reached_of_handler {L : RelayLibraries} {v : Visit} {h : Handler}
    (hhandler : v.handler L arrival = some h) : v.contact.reached = true := by
  unfold Visit.handler at hhandler
  split_ifs at hhandler with hreached
  exact hreached

-- A call that gets there: its handler arrives, and what goes on from then.
theorem Visit.of_reached {L : RelayLibraries} {v : Visit} (hreached : v.contact.reached = true) :
    ∃ s : Server, s.threads[v.index L]? = some (.arrived arrival) ∧
      v.handler L arrival = (final (Server.turn L) v.contact.turns s).threads[v.index L]? ∧
      v.log L arrival =
        taken (Server.turn L) (v.before L) (.start arrival) :: trace (Server.turn L) v.contact.turns s := by
  refine ⟨(Server.turn L (v.before L) (.start arrival)).2, ?_, ?_, ?_⟩
  · simp [Server.turn, Threads.turn, Visit.index]
  · rw [Visit.handler, Contact.took, if_pos hreached, if_pos hreached, final]
  · rw [Visit.log, Contact.took, if_pos hreached, trace]

-- What happens in a call happens at its relay.
theorem log_subset {L : RelayLibraries} {vs : List Visit} {v : Visit} {ws : List Visit}
    (h : visits arrival calls fleet = vs ++ v :: ws) (ws' : List Visit) :
    v.log L arrival ⊆
      trace (Server.turn L) (fleet.after arrival (vs ++ v :: ws') v.relay) Server.start := by
  have hpast := past_of_visits h
  have hturns : fleet.after arrival (vs ++ v :: ws') v.relay = v.past ++ v.contact.took arrival ++
      ws'.flatMap fun w => if w.relay = v.relay then w.contact.took arrival else [] := by
    rw [after_append, hpast]
    simp [Fleet.after]
  rw [hturns, trace_append, trace_append]
  exact fun x hx => List.mem_append_left _ (List.mem_append_right _ hx)

end Visits

end Zbacs.Agent
