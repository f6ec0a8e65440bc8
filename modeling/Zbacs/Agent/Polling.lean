import Zbacs.Agent.Request
import Zbacs.Lib.Threads
import Zbacs.Relay.State

namespace Zbacs.Agent

open Zbacs.Lib Zbacs.Core Zbacs.Proto Zbacs.Session

-- The loops of one device: an `ask` for every request that waits, and a `watch_grant` for every
-- grant that is held. All of them read the device's one inbox.

structure Guarding where
  grantId : FixedBytes 32
  expiry : UInt64
  chain : Bool

inductive Loop where
  | asking (asking : Asking) (nonce : FixedBytes 16) (nudged : Bool)
  | guarding (guarding : Guarding) (session : Zbacs.Session) (confirmed : List (FixedBytes 32))
  | asked (result : Asked)
  | guarded (result : Watched)

-- An `ask` whose request is out, or a `watch_grant` that begins.
inductive LoopJob where
  | ask (asking : Asking) (nonce : FixedBytes 16)
  | watchGrant (guarding : Guarding) (session : Zbacs.Session)

def Loop.enter : LoopJob → Loop
  | .ask a nonce => .asking a nonce false
  | .watchGrant g session => .guarding g session []

-- How a read of the inbox goes. What is lost has left the relay.
inductive Fetch where
  | unreachable
  | lost
  | answered
deriving DecidableEq, Repr

-- What one round of a loop meets; `clock` is the relay's.
structure LoopRound where
  cancelled : Bool
  waited : Nat
  fetch : Fetch
  clock : Zbacs.Relay.Instant
  chain : FixedBytes 32 → ChainAnswer
  now : UInt64

def LoopRound.poll (round : LoopRound) (inbox : Option (List Proto.Envelope)) : Poll :=
  ⟨round.cancelled, round.waited, inbox, round.chain, round.now⟩

-- One answered read: what the relay handed out, and what of it the loop looked at.
structure Handout where
  handed : List Proto.Envelope
  looked : List Proto.Envelope

-- A loop stops at the first message that is for it.
def lookedAt (heeds : Proto.Envelope → Bool) : List Proto.Envelope → List Proto.Envelope
  | [] => []
  | e :: rest => if heeds e then [e] else e :: lookedAt heeds rest

namespace Loop

-- Whether the round comes to the inbox at all.
def reads (loop : Loop) (round : LoopRound) : Bool :=
  match loop with
  | .asking a _ _ => !round.cancelled && !decide (a.limits.giveUpAfter ≤ round.waited)
  | .guarding g _ _ => !round.cancelled && !decide (g.expiry ≤ round.now) &&
      !(g.chain && decide (round.chain g.grantId = .invalid))
  | .asked _ | .guarded _ => false

variable (L : Libraries)

-- Whether a message is for this loop.
def heeds (loop : Loop) (envelope : Proto.Envelope) : Bool :=
  match loop with
  | .asking a nonce _ => decide (classify L envelope nonce a.target a.ourKeyHash ≠ .notOurs)
  | .guarding g _ _ => isRevokeFor L envelope g.grantId
  | .asked _ | .guarded _ => false

-- One round, with what the read brought.
def next (loop : Loop) (round : LoopRound) (inbox : Option (List Proto.Envelope)) : Loop :=
  match loop with
  | .asking a nonce nudged => match askLoop L a nonce [round.poll inbox] nudged with
    | some result => .asked result
    | none => .asking a nonce (nudged || decide (a.limits.nudgeAfter ≤ round.waited))
  | .guarding g session confirmed =>
    let watched := watchGrant L g.chain g.grantId g.expiry [round.poll inbox] session confirmed
    if watched.ended.isSome then .guarded watched else .guarding g watched.session watched.confirmed
  | .asked result => .asked result
  | .guarded result => .guarded result

def run (kid : FixedBytes 16) (loop : Loop) (round : LoopRound) (r : Zbacs.Relay) :
    List Handout × Loop × Zbacs.Relay :=
  if !loop.reads round then ([], loop.next L round none, r)
  else match round.fetch with
    | .unreachable => ([], loop.next L round none, r)
    | .lost => ([], loop.next L round none, (r.drain (.device kid) round.clock).2)
    | .answered =>
      let (envelopes, r) := r.drain (.device kid) round.clock
      ([⟨envelopes, lookedAt (loop.heeds L) envelopes⟩], loop.next L round (some envelopes), r)

end Loop

-- The relay queues a message, or one of the loops begins or goes on.
inductive LoopTurn where
  | queue (inbox : Zbacs.Relay.Inbox) (kind : Kind) (body : Bytes) (id : FixedBytes 16)
      (clock : Zbacs.Relay.Instant)
  | loop (turn : Turn LoopJob LoopRound)

abbrev Loops := Threads Zbacs.Relay Loop

def Loops.turn (L : Libraries) (kid : FixedBytes 16) (s : Loops) : LoopTurn → List Handout × Loops
  | .queue inbox kind body id clock => ([], ⟨s.shared.enqueue inbox kind body id clock, s.threads⟩)
  | .loop t => Threads.turn Loop.enter (Loop.run L kid) s t

end Zbacs.Agent
