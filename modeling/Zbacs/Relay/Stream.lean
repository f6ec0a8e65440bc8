import Zbacs.Relay.Refusals

namespace Zbacs.Relay

open Zbacs.Lib Zbacs.Proto

-- The relay with those who read its inboxes: what is drained and what is written are steps of
-- their own, and a write may fail.

-- A handler of a submission.
def Handler.posting : Handler → Bool
  | .arrived (.inbox _) | .handed _ => false
  | _ => true

abbrev Submission := { h : Handler // h.posting = true }

-- As for `inbox`, but an account of any length.
def InboxQuery.streamTarget (q : InboxQuery) : Option Inbox :=
  match q.owner, q.device with
  | some owner, none => match hexDecode owner with
    | some bytes => if bytes ≠ [] then some (.owner bytes) else none
    | none => none
  | none, some device => (hexDecodeTo 16 device).map .device
  | _, _ => none

-- Where the loop of a live delivery is.
inductive Pump where
  | waiting
  -- and the ping after the last
  | sending (unsent : List Envelope)
  | closed
deriving DecidableEq

structure Connection where
  target : Inbox
  -- the frames the client has sent, and how many of them have been received
  frames : List Bytes
  received : Nat
  pump : Pump
deriving DecidableEq

-- What arrives at the relay.
inductive Call where
  | post (endpoint : Endpoint) (body : Bytes)
  | inbox (query : InboxQuery)
  | stream (query : InboxQuery)
deriving DecidableEq

inductive Task where
  | submitting (submission : Submission)
  | reading (query : InboxQuery)
  | responding (target : Inbox) (envelopes : List Envelope)
  | upgrading (query : InboxQuery)
  | streaming (connection : Connection)
  | refused (code : ErrorCode)
  | responded
deriving DecidableEq

def Task.begin : Call → Task
  | .post endpoint body => .submitting ⟨.arrived (.post endpoint body), rfl⟩
  | .inbox query => .reading query
  | .stream query => .upgrading query

-- A task goes on, and what it writes gets through or does not; or a frame comes in for it.
inductive Meets where
  | goesOn (tick : Tick) (written : Bool)
  | frame (bytes : Bytes)
deriving DecidableEq

inductive Event where
  | passed (passed : Passed)
  | handed (inbox : Inbox) (envelope : Envelope)
deriving DecidableEq

-- `pump`: an envelope that cannot be serialised ends it as one that cannot be sent does.
def Connection.goesOn (c : Connection) (tick : Tick) (written : Bool) (r : Zbacs.Relay) :
    List Event × Connection × Zbacs.Relay :=
  match c.pump with
  | .waiting =>
      let (envelopes, r) := r.drain c.target tick.now
      ([], { c with pump := .sending envelopes }, r)
  | .sending [] => ([], { c with pump := if written then .waiting else .closed }, r)
  | .sending (envelope :: unsent) =>
      if written then ([.handed c.target envelope], { c with pump := .sending unsent }, r)
      else ([], { c with pump := .closed }, r)
  | .closed => ([], c, r)

section

variable (L : RelayLibraries)

theorem run_posting {h : Handler} (hpost : h.posting = true) (tick : Tick) (r : Zbacs.Relay) :
    (h.run L tick r).2.1.posting = true := by
  cases h with
  | arrived arrival =>
      cases arrival with
      | inbox query => cases hpost
      | post e body =>
          have hnext : ∀ {α : Type} (next : Signed → α → Handler)
              (out : Except ErrorCode (Signed × α) × Zbacs.Relay),
              (∀ signed payload, (next signed payload).posting = true) →
              (continueWith next tick.now out).2.1.posting = true := by
            rintro α next ⟨result, r'⟩ h
            rcases result with code | ⟨signed, payload⟩
            · rfl
            · exact h signed payload
          cases e with
          | devices => exact hnext _ _ fun _ _ => rfl
          | requests =>
              refine hnext _ _ fun signed request => ?_
              unfold requested
              split_ifs <;> rfl
          | grants => exact hnext _ _ fun _ _ => rfl
          | versions =>
              refine hnext _ _ fun signed version => ?_
              unfold versioned
              split_ifs <;> rfl
          | revocations => exact hnext _ _ fun _ _ => rfl
  | routing grant body =>
      obtain ⟨kid, -, hrun⟩ | ⟨why, -, hrun⟩ := @routing_cases L grant body tick r <;> rw [hrun] <;> rfl
  | queueing targets kind body id => cases targets <;> rfl
  | handed => cases hpost
  | announcing | remembering | noting | lookingUp | replied => rfl

def Task.run (t : Task) (m : Meets) (r : Zbacs.Relay) : List Event × Task × Zbacs.Relay :=
  match t, m with
  | .submitting submission, .goesOn tick _ =>
      let out := submission.val.run L tick r
      (out.1.map .passed, .submitting ⟨out.2.1, run_posting L submission.property tick r⟩, out.2.2)
  | .reading query, .goesOn tick _ => match query.target with
    | none => ([], .refused .malformed, r)
    | some target =>
      let (envelopes, r) := r.drain target tick.now
      ([], .responding target envelopes, r)
  | .responding target envelopes, .goesOn _ written =>
      (if written then envelopes.map (.handed target) else [], .responded, r)
  | .upgrading query, .goesOn _ _ => match query.streamTarget with
    | none => ([], .refused .malformed, r)
    | some target => ([], .streaming ⟨target, [], 0, .waiting⟩, r)
  | .streaming connection, .goesOn tick written =>
      let (events, connection, r) := connection.goesOn tick written r
      (events, .streaming connection, r)
  | .streaming connection, .frame bytes =>
      ([], .streaming { connection with frames := connection.frames ++ [bytes] }, r)
  | t, _ => ([], t, r)

abbrev System := Threads Zbacs.Relay Task

def System.start : System := ⟨Zbacs.Relay.new, []⟩

def System.turn (s : System) : Turn Call Meets → List Event × System :=
  Threads.turn Task.begin (Task.run L) s

end

abbrev Streamed := Taken System (Turn Call Meets) (List Event)

-- What a reader has drained and not written yet.
def Task.unsent : Task → Option (Inbox × List Envelope)
  | .responding target envelopes => some (target, envelopes)
  | .streaming connection => match connection.pump with
    | .sending unsent => some (connection.target, unsent)
    | .waiting | .closed => none
  | .submitting _ | .reading _ | .upgrading _ | .refused _ | .responded => none

end Zbacs.Relay
