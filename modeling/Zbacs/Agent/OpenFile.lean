import Zbacs.Agent.RunSession
import Zbacs.Lib.Run

namespace Zbacs.Agent

open Zbacs.Lib Zbacs.Core Zbacs.Proto Zbacs.Session

-- The Agent around one sealed path. Each action below is one section under a lock, or what a
-- task does with its own copy of the grant.

-- One request in flight or just finished.
structure Active where
  cancel : Bool
  held : Option Held

-- What a machine brings to every session of the path.
structure Machine (L : Libraries) where
  sealed : Path
  device : DeviceKeys L.toPrimitives
  signer : SigningKeys
  base : Path

variable {L : Libraries}

def Machine.running (machine : Machine L) (held : Held) : Running L :=
  ⟨machine.sealed, held, machine.device, machine.signer, machine.base⟩

-- A session whose viewer is up: it got past its open.
structure Launch (machine : Machine L) where
  held : Held
  script : Script
  fs : Fs
  mat : Materialised
  opened : (openSession L (machine.running held) script fs).result = .ok mat
  launches : script.launches = true

-- One `open_file` call: it has cloned the grant, has seen that the file is not open, has
-- entered it as open, shows it, has the session's result, has written the grant back.
inductive Task (machine : Machine L) where
  | read (held : Held)
  | checked (held : Held)
  | starting (held : Held)
  | running (launch : Launch machine)
  | ended (held : Held)
  | stored

-- The task of `request_access` after the grant: it has a copy of its own.
inductive Watcher where
  | watching (held : Held)
  | ended (held : Held)
  | gone

structure PathState (machine : Machine L) where
  active : Option Active
  sessions : Bool
  tasks : List (Task machine)
  watcher : Watcher
  launched : Nat

inductive Action where
  | openRead
  | openCheck (i : Nat)
  | openFail (i : Nat)
  | openInsert (i : Nat)
  | start (i : Nat) (script : Script) (fs : Fs)
  | finish (i : Nat)
  | storeBack (i : Nat)
  | remove (i : Nat)
  | cancelRequest
  | watchEnd (chain : Bool) (polls : List Poll)
  | watchStore
  | lockNow

namespace PathState

variable {machine : Machine L}

-- `if let Some(active) = requests.get_mut(&key)`
def store (s : PathState machine) (held : Held) : PathState machine :=
  { s with active := s.active.map fun active => { active with held := some held } }

-- The file is entered as open, or taken out.
def enter (s : PathState machine) (isOpen : Bool) : PathState machine := { s with sessions := isOpen }

def countLaunch (s : PathState machine) : PathState machine := { s with launched := s.launched + 1 }

def become (s : PathState machine) (i : Nat) (task : Task machine) : PathState machine :=
  { s with tasks := s.tasks.set i task }

def drop (s : PathState machine) (i : Nat) : PathState machine := { s with tasks := s.tasks.eraseIdx i }

-- The session of a task starts: up to a viewer that is there, or to the end.
def startTask (s : PathState machine) (i : Nat) (held : Held) (script : Script) (fs : Fs) :
    Option (PathState machine) :=
  match hopen : (openSession L (machine.running held) script fs).result, hlaunch : script.launches with
  | .ok mat, true =>
      some (s.become i (.running ⟨held, script, fs, mat, hopen, hlaunch⟩)).countLaunch
  | _, _ => (runSession L (machine.running held) script fs).map
      fun ended => s.become i (.ended ended.held)

-- The watcher's loop ends; cancelled only if somebody set the flag.
def endWatch (s : PathState machine) (held : Held) (terms : AccessGrantTerms) (chain : Bool)
    (polls : List Poll) : Option (PathState machine) :=
  let watched := watchGrant L chain (terms.structHash L) terms.expiry polls held.session []
  match watched.ended with
  | none => none
  | some how =>
    if how = .cancelled ∧ ¬(s.active.any (·.cancel)) then none
    else some { s with watcher := .ended { held with session := watched.session } }

-- One action; `none` where it is refused or not the task's turn.
def step (s : PathState machine) : Action → Option (PathState machine)
  | .openRead => match s.active.bind (·.held) with
    | none => none
    | some held =>
      if held.session.state ≠ .granted then none
      else some { s with tasks := s.tasks ++ [.read held] }
  | .openCheck i => match s.tasks[i]? with
    | some (.read held) => some (if s.sessions then s.drop i else s.become i (.checked held))
    | _ => none
  | .openFail i => match s.tasks[i]? with
    | some (.checked _) => some (s.drop i)
    | _ => none
  | .openInsert i => match s.tasks[i]? with
    | some (.checked held) => some ((s.become i (.starting held)).enter true)
    | _ => none
  | .start i script fs => match s.tasks[i]? with
    | some (.starting held) => s.startTask i held script fs
    | _ => none
  | .finish i => match s.tasks[i]? with
    | some (.running launch) =>
      (runSession L (machine.running launch.held) launch.script launch.fs).map
        fun ended => s.become i (.ended ended.held)
    | _ => none
  | .storeBack i => match s.tasks[i]? with
    | some (.ended held) => some ((s.become i .stored).store held)
    | _ => none
  | .remove i => match s.tasks[i]? with
    | some .stored => some ((s.drop i).enter false)
    | _ => none
  | .cancelRequest =>
      some { s with active := s.active.map fun active => { active with cancel := true } }
  | .watchEnd chain polls => match s.watcher with
    | .watching held => match held.terms with
      | none => none
      | some terms => s.endWatch held terms chain polls
    | _ => none
  | .watchStore => match s.watcher with
    | .ended held => some { s.store held with watcher := .gone }
    | _ => none
  | .lockNow => if s.sessions then some s else none

-- An `open_file` call that nobody comes between: it accepts the path and starts a session.
def acceptFile : List Action := [.openRead, .openCheck 0, .openInsert 0]

def openFile (script : Script) (fs : Fs) : List Action := acceptFile ++ [.start 0 script fs]

-- The end of that session.
def endSession : List Action := [.finish 0, .storeBack 0, .remove 0]

-- A grant was just taken: it is in the map, and its watcher has a copy.
def granted (machine : Machine L) (held : Held) : PathState machine :=
  ⟨some ⟨false, some held⟩, false, [], .watching held, 0⟩

end PathState

end Zbacs.Agent
