import Zbacs.Agent.Open

namespace Zbacs.Agent

open Zbacs.Lib Zbacs.Core Zbacs.Proto Zbacs.Session

inductive SaveEvent where
  | saved
  | vanished
deriving DecidableEq, Repr

-- How a session ended.
inductive End where
  | closed
  | revoked
  | expired
  | failed (reason : Problem)
deriving DecidableEq, Repr

inductive SessionPhase where
  | opened
  | saved
  | resealed
  | discarded
  | closed
  | revoked
  | expired
  | problem
deriving DecidableEq, Repr

-- What the screen gets; the path, permission and expiry are the same in all of them.
structure SessionUpdate where
  phase : SessionPhase
  version : Option UInt32
  problem : Option Problem
deriving DecidableEq

-- Everything one session needs from the machine.
structure Running (L : Libraries) where
  sealed : Path
  held : Held
  device : DeviceKeys L.toPrimitives
  signer : SigningKeys
  base : Path

-- One round of the session loop: what happened on disk meanwhile, "lock now", what the
-- outside says about the grant, the clock, whether the viewer runs (`none` when that
-- cannot be told), and the watcher's event with what a save meets.
structure Round where
  disk : Fs → Fs
  cancelled : Bool
  outside : Option State
  now : UInt64
  viewer : Option Bool
  event : Option SaveEvent
  save : SaveEnv

-- A whole session as the outside plays it: process id and clock for the workspace name,
-- what the open meets, whether the viewer starts, the rounds, and what happens on disk
-- before the final wipe and how that goes.
structure Script where
  pid : Nat
  open? : OpenEnv
  launches : Bool
  rounds : List Round
  closing : Fs → Fs
  closedAt : UInt64
  wipe : WipeFaults

structure LoopState where
  held : Held
  fs : Fs
  sent : List VersionMsg
  updates : List SessionUpdate

structure Ended where
  how : End
  held : Held
  fs : Fs
  sent : List VersionMsg
  updates : List SessionUpdate

-- `format!("s{}-{}", now(), std::process::id())`
def sessionIdOf (now : UInt64) (pid : Nat) : String :=
  "s" ++ toString now.toNat ++ "-" ++ toString pid

def expiryOf (held : Held) : UInt64 := match held.terms with
  | some terms => terms.expiry
  | none => 0

def eventOf : End → Event
  | .closed => .viewerExited
  | .revoked => .revoked
  | .expired => .expired
  | .failed reason => .failed reason

def finalUpdate : End → SessionUpdate
  | .closed => ⟨.closed, none, none⟩
  | .revoked => ⟨.revoked, none, none⟩
  | .expired => ⟨.expired, none, none⟩
  | .failed reason => ⟨.problem, none, some reason⟩

section

variable (L : Libraries)

-- The watcher saw a save.
def onSaved (running : Running L) (mat : Materialised) (round : Round) (s : LoopState) :
    LoopState × Option End :=
  match s.held.session.apply .saved round.now with
  | .error _ => (s, none)
  | .ok (session, effects) =>
    let held := { s.held with session := session }
    if .reseal ∈ effects then
      let step := save L running.sealed mat held running.device running.signer round.save s.fs
      let updates := s.updates ++ [⟨.saved, none, none⟩]
      match step.result with
      | .ok saved =>
        (⟨step.held, step.fs, s.sent ++ step.sent, updates ++ [⟨.resealed, some saved.ver, none⟩]⟩, none)
      | .error e =>
        -- the session is moved to `Failed` here already, before the end of the loop
        let session := step.held.session.applied (.failed e) round.now
        (⟨{ step.held with session := session }, step.fs, s.sent ++ step.sent,
          updates ++ [⟨.problem, none, some e⟩]⟩, some (.failed e))
    else (⟨held, s.fs, s.sent, s.updates ++ [⟨.discarded, none, none⟩]⟩, none)

-- Whether a round ends the session before it looks at the watcher.
def roundEnd (expiry : UInt64) (round : Round) : Option End :=
  if round.cancelled then some .closed
  else if round.outside = some .revoked then some .revoked
  else if round.outside = some .closed then some .expired
  else if expiry ≤ round.now then some .expired
  else if round.viewer = some false then some .closed
  else none

def runRound (running : Running L) (mat : Materialised) (expiry : UInt64) (round : Round)
    (s : LoopState) : LoopState × Option End :=
  match roundEnd expiry round with
  | some ended => (s, some ended)
  | none =>
    let s := { s with fs := round.disk s.fs }
    if round.event = some .saved then onSaved L running mat round s else (s, none)

-- The loop, round by round. Without an end the session is still running.
def runRounds (running : Running L) (mat : Materialised) (expiry : UInt64) :
    List Round → LoopState → LoopState × Option End
  | [], s => (s, none)
  | round :: rest, s => match runRound L running mat expiry round s with
    | (s, some ended) => (s, some ended)
    | (s, none) => runRounds running mat expiry rest s

-- The open at the start of a session.
def openSession (running : Running L) (script : Script) (fs : Fs) : OpenStep :=
  materialise L running.sealed running.held running.device running.base
    (sessionIdOf script.open?.now script.pid) script.open? fs

-- Where the loop starts, after an open.
def loopStart (opened : OpenStep) : LoopState :=
  ⟨opened.held, opened.fs, [], [⟨.opened, none, none⟩]⟩

-- `run_session`. `none`: the session is still running when the rounds are over.
def runSession (running : Running L) (script : Script) (fs : Fs) : Option Ended :=
  let opened := openSession L running script fs
  match opened.result with
  | .error e => some ⟨.failed e, opened.held, opened.fs, [], [⟨.problem, none, some e⟩]⟩
  | .ok mat =>
    if !script.launches then
      let (_, held, fs) := close mat opened.held (.failed .noViewer) script.closedAt script.wipe
        (script.closing opened.fs)
      some ⟨.failed .noViewer, held, fs, [], [⟨.problem, none, some .noViewer⟩]⟩
    else
      match runRounds L running mat (expiryOf running.held) script.rounds (loopStart opened) with
      | (_, none) => none
      | (s, some ended) =>
        let (_, held, fs) := close mat s.held (eventOf ended) script.closedAt script.wipe
          (script.closing s.fs)
        some ⟨ended, held, fs, s.sent, s.updates ++ [finalUpdate ended]⟩

end

end Zbacs.Agent
