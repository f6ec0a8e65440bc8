import Zbacs.Lib.Trace
import Zbacs.Session.State

namespace Zbacs.Session

open Zbacs.Core Zbacs.Lib

-- `Session::apply(&mut self, ..)`, assignment by assignment: an early `return Err(..)` leaves
-- what was assigned before it.
abbrev Applying := ExceptT TransitionError (StateM Zbacs.Session)

def assign (change : Zbacs.Session → Zbacs.Session) : Applying Unit := modify change

-- The effects of a state in which plaintext may exist, pushed when it is left.
def pushEnding (effects : List Effect) : Applying (List Effect) := do
  let s ← get
  if s.state.plaintextAllowed then return effects else return []

def applyMut (event : Event) (now : UInt64) : Applying (List Effect) := do
  let s ← get
  if s.state.isTerminal then throw (.terminal s.state)
  match s.state, event with
    -- waiting for the owner
    | .requested, .granted permission notBefore expiry maxOpens => do
        if permission = .deny then throw .denyIsNotAGrant
        if now < notBefore then throw .notYetValid
        if expiry ≤ now then throw .alreadyExpired
        assign fun s => { s with permission := some permission }
        assign fun s => { s with notBefore := notBefore }
        assign fun s => { s with expiry := expiry }
        assign fun s => { s with maxOpens := maxOpens }
        assign fun s => { s with state := .granted }
        return [.materialisePlaintext]
    | .requested, .denied => do
        assign fun s => { s with state := .denied }
        return [.audit .denied, .notify .refused]
    -- opening
    | .granted, .opened => do
        if s.maxOpens ≠ 0 ∧ s.maxOpens ≤ s.opens then
          assign fun s => { s with state := .closed }
          return [.wipeWorkspace, .notify .opensExhausted]
        assign fun s => { s with opens := s.opens + 1 }
        assign fun s => { s with state := .opened }
        let marks : List Effect := if s.permission = some .readOnly then [.markReadOnly] else []
        return marks ++ [.launchViewer, .audit .opened]
    -- while open
    | .opened, .saved => do
        if s.permission = some .edit then
          assign fun s => { s with dirty := true }
          assign fun s => { s with state := .resealing }
          return [.reseal]
        else return [.discardChanges, .notify .changesDiscarded]
    | .resealing, .resealed version => do
        assign fun s => { s with version := some version }
        assign fun s => { s with dirty := false }
        assign fun s => { s with state := .opened }
        return [.audit .sealed, .notify .resealed]
    | .opened, .viewerExited => do
        assign fun s => { s with state := .closed }
        return [.wipeWorkspace]
    -- ended from outside
    | _, .revoked => do
        let effects ← pushEnding [.requestViewerClose, .wipeWorkspace]
        assign fun s => { s with dirty := false }
        assign fun s => { s with state := .revoked }
        return effects ++ [.notify .revokedByOwner]
    | _, .expired => do
        let effects ← pushEnding [.requestViewerClose, .wipeWorkspace]
        assign fun s => { s with dirty := false }
        assign fun s => { s with state := .closed }
        return effects ++ [.notify .expired]
    | _, .failed _ => do
        let effects ← pushEnding [.wipeWorkspace]
        assign fun s => { s with state := .failed }
        return effects ++ [.audit .failed, .notify .problem]
    | state, event => throw (.unexpected state event.name)

-- One call of `apply`.
structure Call where
  event : Event
  now : UInt64

def feed (s : Zbacs.Session) (call : Call) : Except TransitionError (List Effect) × Zbacs.Session :=
  (applyMut call.event call.now).run.run s

abbrev Applied := Taken Zbacs.Session Call (Except TransitionError (List Effect))

-- The effects the caller is handed: none with an error.
def effectsOf (x : Applied) : List Effect := x.output.toOption.getD []

def isTaken (x : Applied) : Bool := x.output.toOption.isSome

-- The events that come from outside, in whatever state the session is.
def Event.fromOutside : Event → Bool
  | .revoked | .expired | .failed _ => true
  | _ => false

end Zbacs.Session
