import Zbacs.Agent.SaveWatcher

namespace Zbacs.Agent

open Zbacs.Lib Zbacs.Core Zbacs.Proto Zbacs.Session

-- The loop of `run_session` beside the viewer and the watcher's thread. Each of them does one
-- thing at a time, in any order.

-- Where the loop is: before its checks, waiting for the watcher, with what that said, or over.
inductive LoopStage where
  | checking
  | waiting
  | handling (event : Option SaveEvent)
  | ended (how : End)

def LoopStage.unless (ended : Option End) (stage : LoopStage) : LoopStage := match ended with
  | some how => .ended how
  | none => stage

-- Whether the viewer's process can be told from others.
inductive ViewerLaunch where
  | tracked
  | delegated
deriving DecidableEq, Repr

-- The viewer, or what it left in the workspace file.
inductive ViewerProcess where
  | running
  | exited (left : Option Bytes)

structure Editing where
  loop : LoopState
  stage : LoopStage
  watcher : Option SaveWatcher
  launch : ViewerLaunch
  viewer : ViewerProcess

-- The viewer writes the file or removes it, or exits; something is reported to the watcher, whose
-- thread goes on; the loop goes on.
inductive Move where
  | write (content : Option Bytes)
  | exit
  | notify (event : RawEvent)
  | receive (now : Nat)
  | report (now : Nat)
  | check (round : Round)
  | wait
  | handle (round : Round)

namespace Editing

-- The session's file, as the viewer leaves it.
def put (plain : Path) (content : Option Bytes) (fs : Fs) : Fs := match content with
  | some content => fs.insert plain (.file content false)
  | none => fs.remove plain

-- `is_running`
def isRunning (s : Editing) (round : Round) : Option Bool :=
  match s.launch, round.viewer with
  | .delegated, _ => none
  | .tracked, none => none
  | .tracked, some _ => match s.viewer with
    | .running => some true
    | .exited _ => some false

variable (L : Libraries) (running : Running L) (mat : Materialised) (expiry : UInt64)

def step (s : Editing) : Move → Unit × Editing
  | .write content => ((), match s.viewer with
    | .running => { s with loop := { s.loop with fs := put mat.plain content s.loop.fs } }
    | .exited _ => s)
  | .exit => ((), match s.viewer with
    | .running => { s with viewer := .exited (s.loop.fs.readFile mat.plain) }
    | .exited _ => s)
  | .notify event => ((), { s with watcher := s.watcher.map fun w => w.notify event })
  | .receive now => ((), { s with watcher := s.watcher.map fun w => w.receive now })
  | .report now => ((), { s with
    watcher := s.watcher.map fun w => w.report now (s.loop.fs.exists? mat.plain) })
  | .check round => ((), match s.stage with
    | .checking =>
      let ended := roundEnd expiry { round with viewer := s.isRunning round }
      { s with stage := .unless ended .waiting }
    | _ => s)
  | .wait => ((), match s.stage with
    | .waiting => match s.watcher with
      | none => { s with stage := .handling none }
      | some w =>
        let (event, w) := w.nextEvent
        { s with stage := .handling event, watcher := some w }
    | _ => s)
  | .handle round => ((), match s.stage with
    | .handling (some .saved) =>
      let (loop, ended) := onSaved L running mat round s.loop
      { s with loop := loop, stage := .unless ended .checking }
    | .handling _ => { s with stage := .checking }
    | _ => s)

-- The session when its viewer is up. There is no watcher when that could not be started.
def start (opened : OpenStep) (watched : Bool) (launch : ViewerLaunch) : Editing :=
  ⟨loopStart opened, .checking, if watched then some (.watch mat.plain) else none, launch, .running⟩

end Editing

end Zbacs.Agent
