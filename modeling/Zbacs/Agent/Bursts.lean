import Zbacs.Agent.Approve
import Zbacs.Lib.Threads

namespace Zbacs.Agent

open Zbacs.Lib Zbacs.Core

-- The taps of one agent process under the rule about bursts. Every tap is a call of its own, on a
-- device that is to confirm nothing by itself, and the calls take turns at every lock and every await.

-- A signature over the terms of a grant, or over the user operation with it.
structure ApprovalSignature where
  time : UInt64
  permission : Permission
  confirmation : Confirmation
deriving DecidableEq

-- A link to the chain. The signer of a smart account has a list of its own.
structure SignerLink where
  smart : Bool
  recent : List UInt64
deriving DecidableEq

-- What the calls share: the clock, the list of the approvals, and every link there was.
structure TapState where
  now : UInt64
  recent : List UInt64
  links : List SignerLink

namespace TapState

-- The link of now, if the owner's smart account is to carry the grant.
def smartLink (s : TapState) : Option Nat :=
  if s.links.getLast?.any (·.smart) then some (s.links.length - 1) else none

def recentOf (link : Nat) (s : TapState) : List UInt64 := (s.links[link]?.map (·.recent)).getD []

-- Only an approval that went all the way is noted here.
def note (s : TapState) : TapState := { s with recent := s.recent ++ [s.now] }

-- The signer notes what it signed, under the time at which it was asked.
def noteOp (link : Nat) (now : UInt64) (s : TapState) : TapState :=
  { s with links := s.links.modify link fun l => { l with recent := l.recent ++ [now] } }

end TapState

-- How far a call of `decide` has got.
inductive ApprovingStage where
  | called
  -- `decide` has copied the list, and taken the link
  | copied (recent : List UInt64)
  | linked (recent : List UInt64) (link : Option Nat)
  -- `answer` has read the clock, and is to take a nonce
  | numbering (recent : List UInt64) (link : Option Nat) (now : UInt64)
  | signing (confirmation : Confirmation)
  | wrapping (link : Option Nat)
  -- on the way to the signer of the user operation, which reads the clock anew
  | submitting (link : Nat)
  | asked (link : Nat) (now : UInt64)
  | signingOp (link : Nat) (now : UInt64) (confirmation : Confirmation)
  | notingOp (link : Nat) (now : UInt64)
  | submitted
  | sending
  | noting
  | ended
deriving DecidableEq

structure Approving where
  decision : DecisionArg
  stage : ApprovingStage
deriving DecidableEq

namespace Approving

def called (decision : DecisionArg) : Approving := ⟨decision, .called⟩

def goTo (a : Approving) (stage : ApprovingStage) : Approving := { a with stage := stage }

-- The confirmation for the terms.
def required (a : Approving) (recent : List UInt64) (now : UInt64) : Confirmation :=
  ConfirmationPolicy.default.required a.decision.permission .notRequired recent now

-- `sign_user_op` is told the permission as it is on the chain.
def opPermission (a : Approving) : Permission := if a.decision.permission.toByte = 2 then .edit else .readOnly

def requiredOp (a : Approving) (recent : List UInt64) (now : UInt64) : Confirmation :=
  ConfirmationPolicy.default.required a.opPermission .notRequired recent now

-- One step of a call. Whatever can fail does so when it does not go through, and ends the call: a
-- request that is not held, a file that is not on record, the nonce, the signer, the envelope, the
-- bundler, the relay.
def run (goes : Bool) (s : TapState) (a : Approving) : List ApprovalSignature × Approving × TapState :=
  match a.stage with
  | .called => ([], a.goTo (if goes then .copied s.recent else .ended), s)
  | .copied recent => ([], a.goTo (.linked recent s.smartLink), s)
  -- a refusal is sent, and signs nothing
  | .linked recent link =>
      ([], a.goTo (if a.decision ≠ .deny ∧ goes then .numbering recent link s.now else .ended), s)
  | .numbering recent link now => match goes, link with
    | false, _ => ([], a.goTo .ended, s)
    | true, some link => ([], a.goTo (.wrapping (some link)), s)
    | true, none => ([], a.goTo (.signing (a.required recent now)), s)
  | .signing confirmation =>
      if goes then ([⟨s.now, a.decision.permission, confirmation⟩], a.goTo (.wrapping none), s)
      else ([], a.goTo .ended, s)
  | .wrapping link => match goes, link with
    | false, _ => ([], a.goTo .ended, s)
    | true, some link => ([], a.goTo (.submitting link), s)
    -- a direct write that fails does not hold the answer back
    | true, none => ([], a.goTo .sending, s)
  | .submitting link => ([], a.goTo (if goes then .asked link s.now else .ended), s)
  | .asked link now => ([], a.goTo (.signingOp link now (a.requiredOp (s.recentOf link) now)), s)
  | .signingOp link now confirmation =>
      if goes then ([⟨s.now, a.opPermission, confirmation⟩], a.goTo (.notingOp link now), s)
      else ([], a.goTo .ended, s)
  | .notingOp link now => ([], a.goTo .submitted, s.noteOp link now)
  | .submitted => ([], a.goTo (if goes then .sending else .ended), s)
  | .sending => ([], a.goTo (if goes then .noting else .ended), s)
  | .noting => ([], a.goTo .ended, s.note)
  | .ended => ([], a, s)

end Approving

-- Time passes, a link to the chain is made, a tap comes in, or a call goes on.
inductive TapTurn where
  | wait (time : UInt64)
  | connect (smart : Bool)
  | call (turn : Turn DecisionArg Bool)

abbrev Taps := Threads TapState Approving

namespace Taps

def start (now : UInt64) : Taps := ⟨⟨now, [], []⟩, []⟩

def step (s : Taps) : TapTurn → List ApprovalSignature × Taps
  | .wait time => ([], { s with shared := { s.shared with now := max s.shared.now time } })
  | .connect smart => ([], { s with shared := { s.shared with links := s.shared.links ++ [⟨smart, []⟩] } })
  | .call turn => s.turn Approving.called (fun a goes => a.run goes) turn

end Taps

end Zbacs.Agent
