import Zbacs.Agent.RunSession
import Zbacs.Lib.Threads

namespace Zbacs.Agent

open Zbacs.Lib Zbacs.Core Zbacs.Proto Zbacs.Session

-- The sessions of one agent process. Each runs on a blocking thread of its own, and they all work
-- on one disk.

-- What a step of a session meets.
structure SessionInput where
  env : OpenEnv
  launches : Bool
  round : Round

-- An open that passed its checks.
structure Admitted where
  dek : Dek
  header : Header
  headerHash : HeaderHash
  rest : Reader
  session : Zbacs.Session
  effects : List Effect

-- Where a session is: at the checks of its open, at what the open does on disk, at the viewer, in
-- the loop, or at one of the steps that close it.
inductive SessionStage where
  | called
  | creating (a : Admitted)
  | extracting (a : Admitted) (workspace : Workspace)
  | settling (a : Admitted) (workspace : Workspace) (plain : Path) (fileName : String)
  | launching (mat : Materialised)
  | looping (mat : Materialised)
  | closing (mat : Materialised) (how : End)
  | listing (workspace : Workspace) (how : End)
  | deleting (workspace : Workspace) (files : List Path) (how : End)
  | ended (how : End)

-- What a step tells the owner, and the screen.
structure SessionReport where
  sent : List VersionMsg
  updates : List SessionUpdate

-- A call of `run_session`, with the second in which it read the clock for its id.
structure SessionThread (L : Libraries) where
  running : Running L
  startedAt : UInt64
  expiry : UInt64
  stage : SessionStage

namespace SessionThread

variable {L : Libraries}

def goTo (t : SessionThread L) (stage : SessionStage) : SessionThread L := { t with stage := stage }

def hold (t : SessionThread L) (session : Zbacs.Session) : SessionThread L :=
  { t with running := { t.running with held := { t.running.held with session := session } } }

def finish (t : SessionThread L) (how : End) (fs : Fs) :
    List SessionReport × SessionThread L × Fs :=
  ([⟨[], [finalUpdate how]⟩], t.goTo (.ended how), fs)

-- Everything `materialise` does before it touches the disk.
def preflight (t : SessionThread L) (env : OpenEnv) (fs : Fs) : Except Problem Admitted :=
  match unlock L t.running.sealed t.running.held t.running.device env fs with
  | .error e => .error e
  | .ok (dek, header, headerHash, rest) =>
    match t.running.held.session.apply .opened env.now with
    | .error _ => .error .notGranted
    | .ok (session, effects) => .ok ⟨dek, header, headerHash, rest, session, effects⟩

def check (t : SessionThread L) (env : OpenEnv) (fs : Fs) :
    List SessionReport × SessionThread L × Fs :=
  match t.preflight env fs with
  | .error e => t.finish (.failed e) fs
  | .ok a =>
    if .wipeWorkspace ∈ a.effects then (t.hold a.session).finish (.failed .opensExhausted) fs
    else ([], (t.hold a.session).goTo (.creating a), fs)

def create (pid : Nat) (t : SessionThread L) (a : Admitted) (env : OpenEnv) (fs : Fs) :
    List SessionReport × SessionThread L × Fs :=
  match Workspace.create t.running.base (sessionIdOf t.startedAt pid) env.create fs with
  | (.error _, fs) => t.finish (.failed .workspace) fs
  | (.ok workspace, fs) => ([], t.goTo (.extracting a workspace), fs)

-- The plaintext is written under a name that is the same in every session.
def extractTo (t : SessionThread L) (a : Admitted) (workspace : Workspace) (env : OpenEnv) (fs : Fs) :
    List SessionReport × SessionThread L × Fs :=
  match workspace.file "opened.bin" with
  | .error _ => t.finish (.failed .workspace) fs
  | .ok plain =>
    if env.createFile ∨ fs.lookup plain = some .dir then t.finish (.failed .workspace) fs
    else
      let run := openWithDek L.toPrimitives a.header a.headerHash a.rest env.sink a.dek
      let fs := fs.insert plain (.file run.written false)
      match run.result with
      | .error _ => ([], t.goTo (.listing workspace (.failed .damaged)), fs)
      | .ok opened => ([], t.goTo (.settling a workspace plain opened.fileName), fs)

def settle (t : SessionThread L) (a : Admitted) (workspace : Workspace) (plain : Path)
    (fileName : String) (env : OpenEnv) (fs : Fs) : List SessionReport × SessionThread L × Fs :=
  match settleName workspace plain fileName a.effects env fs with
  | (.error e, fs) => t.finish (.failed e) fs
  | (.ok mat, fs) => ([], t.goTo (.launching mat), fs)

def launch (t : SessionThread L) (mat : Materialised) (launches : Bool) (fs : Fs) :
    List SessionReport × SessionThread L × Fs :=
  if launches then ([⟨[], [⟨.opened, none, none⟩]⟩], t.goTo (.looping mat), fs)
  else ([], t.goTo (.closing mat (.failed .noViewer)), fs)

-- A round of the loop. What others do on disk meanwhile are steps of their own.
def loop (t : SessionThread L) (mat : Materialised) (round : Round) (fs : Fs) :
    List SessionReport × SessionThread L × Fs :=
  let (s, ended) := runRound L t.running mat t.expiry { round with disk := id }
    ⟨t.running.held, fs, [], []⟩
  let t := { t with running := { t.running with held := s.held } }
  ([⟨s.sent, s.updates⟩],
    t.goTo ((ended.map fun how => .closing mat how).getD (.looping mat)), s.fs)

def close (t : SessionThread L) (mat : Materialised) (how : End) (now : UInt64) (fs : Fs) :
    List SessionReport × SessionThread L × Fs :=
  match t.running.held.session.apply (eventOf how) now with
  | .error _ => t.finish how fs
  | .ok (session, _) =>
    if fs.exists? mat.workspace.root then
      ([], (t.hold session).goTo (.listing mat.workspace how),
        (mat.workspace.clearReadOnly mat.name fs).2)
    else (t.hold session).finish how fs

-- One step of `run_session`, the wipe at its end file by file.
def run (pid : Nat) (t : SessionThread L) (input : SessionInput) (fs : Fs) :
    List SessionReport × SessionThread L × Fs :=
  match t.stage with
  | .called => t.check input.env fs
  | .creating a => t.create pid a input.env fs
  | .extracting a workspace => t.extractTo a workspace input.env fs
  | .settling a workspace plain fileName => t.settle a workspace plain fileName input.env fs
  | .launching mat => t.launch mat input.launches fs
  | .looping mat => t.loop mat input.round fs
  | .closing mat how => t.close mat how input.env.now fs
  | .listing workspace how => ([], t.goTo (.deleting workspace (fs.filesIn workspace.root) how), fs)
  | .deleting workspace (file :: files) how =>
      ([], t.goTo (.deleting workspace files how),
        (Workspace.secureDelete (input.env.wipe.delete file) file fs).2)
  | .deleting workspace [] how =>
      t.finish how (if input.env.wipe.removeDir then fs else fs.removeTree workspace.root)
  | .ended _ => ([], t, fs)

end SessionThread

-- A session is called or goes on, or something else happens on disk, such as a viewer's save.
inductive SessionsTurn (L : Libraries) where
  | session (turn : Turn (Running L × UInt64) SessionInput)
  | outside (change : Fs → Fs)

abbrev Sessions (L : Libraries) : Type := Threads Fs (SessionThread L)

namespace Sessions

variable {L : Libraries}

-- All sessions of the process have their workspaces under `Workspace::default_base()`.
def enter (base : Path) (job : Running L × UInt64) : SessionThread L :=
  ⟨{ job.1 with base := base }, job.2, expiryOf job.1.held, .called⟩

def turn (pid : Nat) (base : Path) (s : Sessions L) :
    SessionsTurn L → List SessionReport × Sessions L
  | .session t => Threads.turn (enter base) (SessionThread.run pid) s t
  | .outside change => ([], ⟨change s.shared, s.threads⟩)

end Sessions

end Zbacs.Agent
