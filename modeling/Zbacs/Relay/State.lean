import Mathlib.Logic.Function.Basic
import Zbacs.Lib.Hex
import Zbacs.Proto.Messages

namespace Zbacs.Relay

open Zbacs.Lib Zbacs.Proto

-- A reading of the clock: whole seconds since the epoch and the nanoseconds after them.
structure Instant where
  secs : UInt64
  nanos : UInt32
  nanos_lt : nanos.toNat < 10 ^ 9
deriving DecidableEq

namespace Instant

def toNanos (t : Instant) : Nat := t.secs.toNat * 10 ^ 9 + t.nanos.toNat

-- In nanoseconds; zero for a later reading.
def durationSince (now earlier : Instant) : Nat := now.toNanos - earlier.toNanos

-- `now_unix()`: the whole seconds.
def unix (t : Instant) : UInt64 := t.secs

end Instant

def fromSecs (secs : Nat) : Nat := secs * 10 ^ 9

def queueTtl : Nat := fromSecs (24 * 60 * 60)
def ratePerMinute : Nat := 30
def ratePerHour : Nat := 300

-- Whose inbox a queue is.
inductive Inbox where
  | owner (account : Bytes)
  | device (kid : FixedBytes 16)
deriving DecidableEq

structure Queued where
  envelope : Envelope
  queuedAt : Instant
deriving DecidableEq

structure Device where
  ed25519Pub : FixedBytes 32
  x25519Pub : FixedBytes 32
  label : Option String
deriving DecidableEq

inductive Refusal where
  | unknownDevice
  | replayed
  | rateLimited
  | unknownRequest
deriving DecidableEq, Repr

end Zbacs.Relay

namespace Zbacs

open Zbacs.Lib Zbacs.Proto Zbacs.Relay

-- Who is registered, what is queued, what has been seen. A key without a list has the empty one.
structure Relay where
  devices : FixedBytes 16 → Option Device
  queues : Inbox → List Queued
  -- the envelope nonces accepted, with when they were seen
  nonces : FixedBytes 16 → Option Instant
  -- a request's nonce, with the device that asked
  requestRoutes : FixedBytes 16 → Option (FixedBytes 16 × Instant)
  -- a file, with the devices that asked about it
  interests : FixedBytes 32 → List (FixedBytes 16 × Instant)
  -- a device, with the times of its calls
  calls : FixedBytes 16 → List Instant

namespace Relay

def new : Relay := ⟨fun _ => none, fun _ => [], fun _ => none, fun _ => none, fun _ => [], fun _ => []⟩

def announce (kid : FixedBytes 16) (device : Device) (r : Relay) : Relay :=
  { r with devices := Function.update r.devices kid (some device) }

-- Check the quota and record the call.
def takeQuota (kid : FixedBytes 16) (now : Instant) (r : Relay) : Except Refusal Unit × Relay :=
  let calls := (r.calls kid).dropWhile fun t => now.durationSince t > fromSecs 3600
  let lastMinute := (calls.filter fun t => now.durationSince t ≤ fromSecs 60).length
  if lastMinute ≥ ratePerMinute ∨ calls.length ≥ ratePerHour then
    (.error .rateLimited, { r with calls := Function.update r.calls kid calls })
  else (.ok (), { r with calls := Function.update r.calls kid (calls ++ [now]) })

-- The nonces still remembered.
def remembered (now : Instant) (r : Relay) (nonce : FixedBytes 16) : Option Instant :=
  (r.nonces nonce).filter fun seen => now.durationSince seen < fromSecs nonceMemorySecs

-- Record an envelope nonce, refusing a repeat.
def takeNonce (nonce : FixedBytes 16) (now : Instant) (r : Relay) : Except Refusal Unit × Relay :=
  let nonces := r.remembered now
  if (nonces nonce).isSome then (.error .replayed, { r with nonces := nonces })
  else (.ok (), { r with nonces := Function.update nonces nonce (some now) })

-- Remember which device asked, so that the answer can be routed back.
def rememberRequest (requestNonce sender : FixedBytes 16) (now : Instant) (r : Relay) : Relay :=
  { r with requestRoutes := Function.update r.requestRoutes requestNonce (some (sender, now)) }

-- Remember that a device asked about a file, for routing a later revoke.
def rememberInterest (fid : FixedBytes 32) (sender : FixedBytes 16) (now : Instant) (r : Relay) : Relay :=
  let list := (r.interests fid).filter fun (kid, _) => kid ≠ sender
  { r with interests := Function.update r.interests fid (list ++ [(sender, now)]) }

-- The devices that asked about a file within the queue's time to live.
def interested (fid : FixedBytes 32) (now : Instant) (r : Relay) : List (FixedBytes 16) × Relay :=
  let interests := fun fid => (r.interests fid).filter fun (_, since) => now.durationSince since < queueTtl
  ((interests fid).map Prod.fst, { r with interests := interests })

-- Who asked with this request nonce?
def routeFor (requestNonce : FixedBytes 16) (now : Instant) (r : Relay) :
    Except Refusal (FixedBytes 16) × Relay :=
  let routes := fun nonce =>
    (r.requestRoutes nonce).filter fun (_, since) => now.durationSince since < queueTtl
  (match routes requestNonce with
    | none => .error .unknownRequest
    | some (kid, _) => .ok kid, { r with requestRoutes := routes })

-- Put a signed message in an inbox, under the queue id drawn for it.
def enqueue (inbox : Inbox) (kind : Kind) (body : Bytes) (id : FixedBytes 16) (now : Instant)
    (r : Relay) : Relay :=
  let queue := (r.queues inbox).dropWhile fun q => now.durationSince q.queuedAt > queueTtl
  { r with queues := Function.update r.queues inbox (queue ++ [⟨⟨id, kind, body, now.unix⟩, now⟩]) }

-- Take everything waiting in an inbox.
def drain (inbox : Inbox) (now : Instant) (r : Relay) : List Envelope × Relay :=
  (((r.queues inbox).filter fun q => now.durationSince q.queuedAt ≤ queueTtl).map (·.envelope),
    { r with queues := Function.update r.queues inbox [] })

end Relay

end Zbacs
