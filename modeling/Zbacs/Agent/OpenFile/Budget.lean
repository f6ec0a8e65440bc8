import Zbacs.Agent.OpenFile.Theorems
import Zbacs.Agent.Reference

namespace Zbacs.Agent

open Zbacs.Lib Zbacs.Core Zbacs.Proto Zbacs.Session

section

variable {L : Libraries} {machine : Machine L}

-- The launches a task can still come to, once it has passed the check: one, with its copy of
-- the grant.
def Task.weight : Task machine → Nat
  | checked _ | starting _ => 1
  | ended held => if held.session.state = .granted then 1 else 0
  | read _ | running _ | stored => 0

-- A task that has passed the check and has not written its copy back.
def Task.live : Task machine → Bool
  | read _ | stored => false
  | _ => true

namespace PathState

-- The grant in the map can be opened.
def armed (s : PathState machine) : Bool :=
  (s.active.bind (·.held)).any fun held => held.session.state = .granted

-- No `open_file` call is past its check and still to write its copy back.
def idle (s : PathState machine) : Bool := s.tasks.all fun task => !task.live

-- Launches so far, and those that can come of the copies of the grant that are about.
def potential (s : PathState machine) : Nat :=
  s.launched + (s.tasks.map Task.weight).sum + if s.armed ∧ s.idle then 1 else 0

-- An `open_file` call passes the check although another one is under way, or the grant has
-- been used since it was read.
def overlaps (s : PathState machine) : Action → Bool
  | .openCheck _ => !s.sessions && !(s.armed && s.idle)
  | _ => false

-- The watcher, cancelled, writes its `Granted` copy over a grant that was used.
def rearms (s : PathState machine) : Action → Bool
  | .watchStore => match s.watcher with
    | .ended held => decide (held.session.state = .granted) && !s.armed && s.idle
    | _ => false
  | _ => false

def cost (s : PathState machine) (a : Action) : Nat :=
  (if s.overlaps a then 1 else 0) + if s.rearms a then 1 else 0

end PathState

-- The place of one task among the others.
theorem split_of_getElem? {α : Type} {l : List α} {i : Nat} {x : α} (h : l[i]? = some x) :
    ∃ pre post, l = pre ++ x :: post ∧ (∀ y, l.set i y = pre ++ y :: post) ∧
      l.eraseIdx i = pre ++ post := by
  obtain ⟨hlt, rfl⟩ := List.getElem?_eq_some_iff.mp h
  refine ⟨l.take i, l.drop (i + 1), ?_, ?_, ?_⟩
  · rw [← List.drop_eq_getElem_cons hlt, List.take_append_drop]
  · intro y
    rw [List.set_eq_take_append_cons_drop, if_pos hlt]
  · exact List.eraseIdx_eq_take_drop_succ l i

namespace PathState

variable {s s' : PathState machine} {i : Nat} {task task' : Task machine}

theorem not_idle (hi : s.tasks[i]? = some task) (hlive : task.live) : s.idle = false := by
  obtain ⟨pre, post, htasks, -⟩ := split_of_getElem? hi
  simp [idle, htasks, hlive]

-- A task that goes on keeps the map out of the count.
theorem potential_become (hi : s.tasks[i]? = some task) (hlive : task.live) (hlive' : task'.live) :
    (s.become i task').potential + task.weight = s.potential + task'.weight := by
  obtain ⟨pre, post, htasks, hset, -⟩ := split_of_getElem? hi
  have hbefore := not_idle hi hlive
  have hafter : (s.become i task').idle = false := by simp [idle, become, hset, hlive']
  simp only [potential, hbefore, hafter, Bool.false_eq_true, and_false, if_false]
  simp only [become, hset]
  rw [htasks]
  simp only [List.map_append, List.map_cons, List.sum_append, List.sum_cons]
  omega

-- One that gives up leaves at most what it could have come to.
theorem potential_drop (hi : s.tasks[i]? = some task) (hlive : task.live) (hweight : task.weight = 1) :
    (s.drop i).potential ≤ s.potential := by
  obtain ⟨pre, post, htasks, -, herase⟩ := split_of_getElem? hi
  have hbefore := not_idle hi hlive
  have hone : (if (s.drop i).armed = true ∧ (s.drop i).idle = true then 1 else 0) ≤ 1 := by
    split_ifs <;> omega
  simp only [potential, hbefore, Bool.false_eq_true, and_false, if_false]
  simp only [drop, herase] at hone ⊢
  rw [htasks]
  simp only [List.map_append, List.map_cons, List.sum_append, List.sum_cons, hweight]
  omega

-- One outside the count may come and go.
theorem potential_drop_out (hi : s.tasks[i]? = some task) (hlive : task.live = false)
    (hweight : task.weight = 0) : (s.drop i).potential = s.potential := by
  obtain ⟨pre, post, htasks, -, herase⟩ := split_of_getElem? hi
  have hidle : (s.drop i).idle = s.idle := by
    simp only [idle, drop, herase]
    rw [htasks]
    simp [hlive]
  have harmed : (s.drop i).armed = s.armed := rfl
  simp only [potential, hidle, harmed]
  simp only [drop, herase]
  rw [htasks]
  simp [hweight]

-- One that has not passed the check yet is outside the count.
theorem potential_read (held : Held) :
    PathState.potential { s with tasks := s.tasks ++ [.read held] } = s.potential := by
  simp [potential, armed, idle, Task.weight, Task.live]

-- Past the check: the map's own launch is now the task's, if it had one and nobody else has it.
theorem potential_pass {held : Held} (hi : s.tasks[i]? = some (.read held))
    (hsessions : s.sessions = false) :
    (s.become i (.checked held)).potential ≤ s.potential + s.cost (.openCheck i) := by
  obtain ⟨pre, post, htasks, hset, -⟩ := split_of_getElem? hi
  have hafter : (s.become i (.checked held)).idle = false := by
    simp [idle, become, hset, Task.live]
  simp only [potential, hafter, cost, overlaps, rearms, hsessions, Bool.false_eq_true, and_false,
    if_false]
  simp only [become, hset]
  rw [htasks]
  simp only [List.map_append, List.map_cons, List.sum_append, List.sum_cons, Task.weight]
  by_cases harmed : s.armed = true <;> by_cases hidle : s.idle = true <;> simp [harmed, hidle] <;>
    omega

-- What is written into the map can be opened only if it is `Granted`.
theorem armed_store {held : Held} (h : (s.store held).armed) : held.session.state = .granted := by
  cases hactive : s.active with
  | none => simp [armed, store, hactive] at h
  | some active => simpa [armed, store, hactive] using h

-- The watcher's copy: it counts where the grant in the map was used already.
theorem potential_watchStore {held : Held} (hwatcher : s.watcher = .ended held) :
    PathState.potential { s.store held with watcher := .gone } ≤ s.potential + s.cost .watchStore := by
  have hsame : PathState.potential { s.store held with watcher := .gone } =
      s.launched + (s.tasks.map Task.weight).sum +
        if (s.store held).armed ∧ s.idle then 1 else 0 := rfl
  rw [hsame]
  simp only [potential, cost, overlaps, rearms, hwatcher]
  by_cases harmed : (s.store held).armed = true
  · have hgranted := armed_store harmed
    by_cases hbefore : s.armed = true <;> by_cases hfree : s.idle = true <;>
      simp [harmed, hgranted, hbefore, hfree]
  · simp [harmed]
    omega

theorem potential_countLaunch : s.countLaunch.potential = s.potential + 1 := by
  have hsame : s.countLaunch.potential = s.launched + 1 + (s.tasks.map Task.weight).sum +
      if s.armed ∧ s.idle then 1 else 0 := rfl
  rw [hsame, potential]
  omega

-- The session of a task starts: its one launch happens, or does not.
theorem potential_start {held : Held} {script : Script} {fs : Fs}
    (hi : s.tasks[i]? = some (.starting held)) (h : s.startTask i held script fs = some s') :
    s'.potential ≤ s.potential := by
  unfold startTask at h
  split at h
  · rename_i mat hopen hlaunch
    cases h
    have hbecome := @potential_become L machine s i (.starting held)
      (.running ⟨held, script, fs, mat, hopen, hlaunch⟩) hi rfl rfl
    simp only [Task.weight] at hbecome
    rw [potential_countLaunch]
    omega
  · obtain ⟨ended, -, rfl⟩ := Option.map_eq_some_iff.mp h
    have hbecome := @potential_become L machine s i (.starting held) (.ended ended.held) hi rfl rfl
    simp only [Task.weight] at hbecome
    split_ifs at hbecome <;> omega

-- It is over: its copy of the grant is used.
theorem potential_finish {launch : Launch machine} (hi : s.tasks[i]? = some (.running launch))
    {ended : Ended}
    (hrun : runSession L (machine.running launch.held) launch.script launch.fs = some ended) :
    (s.become i (.ended ended.held)).potential ≤ s.potential := by
  have hterminal := runSession_launched launch.opened launch.launches hrun
  have hused : ended.held.session.state ≠ .granted := by
    intro hgranted
    rw [hgranted] at hterminal
    cases hterminal
  have hbecome := @potential_become L machine s i (.running launch) (.ended ended.held) hi rfl rfl
  simp only [Task.weight, if_neg hused] at hbecome
  omega

-- The copy goes into the map: it can be opened again if it was not used.
theorem potential_storeBack {held : Held} (hi : s.tasks[i]? = some (.ended held)) :
    ((s.become i .stored).store held).potential ≤ s.potential := by
  obtain ⟨pre, post, htasks, hset, -⟩ := split_of_getElem? hi
  have hbefore := not_idle hi rfl
  have hafter : ((s.become i .stored).store held).potential =
      s.launched + ((pre ++ .stored :: post).map Task.weight).sum +
        if ((s.become i .stored).store held).armed ∧ ((s.become i .stored).store held).idle
          then 1 else 0 := by
    rw [← hset]
    rfl
  rw [hafter]
  simp only [potential, hbefore, Bool.false_eq_true, and_false, if_false]
  rw [htasks]
  simp only [List.map_append, List.map_cons, List.sum_append, List.sum_cons, Task.weight]
  by_cases harmed : ((s.become i .stored).store held).armed = true
  · rw [if_pos (armed_store harmed)]
    split_ifs <;> omega
  · simp only [harmed, Bool.false_eq_true, false_and, if_false]
    omega

-- No step adds a launch that was not there to come, but for the two that cost one.
theorem step_potential (a : Action) (h : s.step a = some s') :
    s'.potential ≤ s.potential + s.cost a := by
  cases step_stepped h with
  | read => exact (potential_read _).le.trans (Nat.le_add_right _ _)
  | found hi => exact (potential_drop_out hi rfl rfl).le.trans (Nat.le_add_right _ _)
  | passed hi hsessions => exact potential_pass hi hsessions
  | failed hi => exact (potential_drop hi rfl rfl).trans (Nat.le_add_right _ _)
  | @entered i held hi =>
      have hbecome := @potential_become L machine s i (.checked held) (.starting held) hi rfl rfl
      have hsame : ((s.become i (.starting held)).enter true).potential =
        (s.become i (.starting held)).potential := rfl
      simp only [Task.weight] at hbecome
      omega
  | started hi hstart => exact (potential_start hi hstart).trans (Nat.le_add_right _ _)
  | finished hi hrun => exact (potential_finish hi hrun).trans (Nat.le_add_right _ _)
  | storedBack hi => exact (potential_storeBack hi).trans (Nat.le_add_right _ _)
  | @removed i hi =>
      have hsame : ((s.drop i).enter false).potential = (s.drop i).potential := rfl
      rw [hsame]
      exact (potential_drop_out hi rfl rfl).le.trans (Nat.le_add_right _ _)
  | cancelled =>
      have harmed : PathState.armed { s with active := s.active.map fun active =>
          { active with cancel := true } } = s.armed := by
        cases hactive : s.active <;> simp [armed, hactive]
      simp only [potential, harmed]
      exact Nat.le_add_right _ _
  | watchEnded | locked => exact Nat.le_add_right _ _
  | watchStored hwatcher => exact potential_watchStore hwatcher

theorem potential_granted (machine : Machine L) (held : Held) :
    (granted machine held).potential ≤ 1 := by
  have hpotential : (granted machine held).potential =
      0 + 0 + if (granted machine held).armed ∧ (granted machine held).idle then 1 else 0 := rfl
  rw [hpotential]
  split_ifs <;> omega

-- A call that nobody comes between costs nothing.
theorem spent_openFile {held : Held} {script : Script} {fs : Fs}
    (hactive : s.active.bind (·.held) = some held) (hstate : held.session.state = .granted)
    (htasks : s.tasks = []) : spent step cost (openFile script fs) s = 0 := by
  cases hsessions : s.sessions with
  | true =>
      simp [openFile, acceptFile, spent, step, cost, overlaps, rearms, hactive, hstate, htasks, hsessions, drop]
  | false =>
      have hspent : ∀ r : Option (PathState machine), (r.map fun _ => 0).getD 0 = 0 := by
        intro r
        cases r <;> rfl
      simp [openFile, acceptFile, spent, step, cost, overlaps, rearms, hactive, hstate, htasks, hsessions,
        become, armed, idle, Task.live, hspent]

end PathState

-- In every interleaving the viewer is launched at most as often as the grant allows, as long as
-- less than that often a call passes the check on a grant that is in use or was used, or the
-- cancelled watcher puts a used grant back.
theorem launched_le_maxOpens {held : Held} {actions : List Action} {s : PathState machine}
    (hrun : run PathState.step actions (PathState.granted machine held) = some s)
    (hcost : spent PathState.step PathState.cost actions (PathState.granted machine held) <
      held.session.maxOpens.toNat) :
    s.launched ≤ held.session.maxOpens.toNat := by
  have hpotential : s.potential ≤ (PathState.granted machine held).potential +
      spent PathState.step PathState.cost actions (PathState.granted machine held) :=
    run_potential (fun s a s' => PathState.step_potential a) hrun
  have hstart := PathState.potential_granted machine held
  have hlaunched : s.launched ≤ s.potential := by
    unfold PathState.potential
    omega
  omega

end

namespace Reference

def machine : Machine libraries := ⟨sealed, device.keys, device.signing, base⟩

-- A session that is locked in its first round.
def locked : Script := script [round id none true]

-- It opens the file and comes to its end, the grant used.
theorem runSession_locked {policy : Policy} {h : Header} {out headerBytes frames : Bytes}
    (s : SealedAs libraries.toPrimitives Core.Reference.input.data
      Core.Reference.owner.sealing.x25519Pk Core.Reference.owner.signing (options policy)
      Core.Reference.draws h out headerBytes frames) {t : AccessGrantTerms}
    (hversion : t.headerHash = libraries.sha256 headerBytes) (permission : Permission) :
    ∃ mat ended,
      (openSession libraries (machine.running (granted t permission)) locked (disk out)).result =
        .ok mat ∧
      runSession libraries (machine.running (granted t permission)) locked (disk out) = some ended ∧
      ended.how = .closed := by
  obtain ⟨effects, fs', hopen, -⟩ := openSession_granted s hversion permission [round id none true]
  have hresult := congrArg OpenStep.result hopen
  exact ⟨_, _, hresult, runSession_eq hresult rfl (show runRounds _ _ _ _ [round id none true] _ =
    (_, some .closed) by rw [runRounds, runRound_ended rfl]), rfl⟩

theorem launched_le_maxOpens_one_open : ∃ (container : Bytes) (held : Held)
    (s : PathState machine), held.session.maxOpens = 1 ∧
    run PathState.step (PathState.openFile locked (disk container))
      (PathState.granted machine held) = some s ∧
    s.launched = 1 ∧ s.launched ≤ held.session.maxOpens.toNat := by
  obtain ⟨h, out, headerBytes, frames, -, s⟩ := container_sealed .defaultPolicy
  let t := terms ⟨h.body.fid, libraries.sha256 headerBytes, h.body.own⟩ .edit 1
  obtain ⟨mat, ended, hopen, -⟩ := runSession_locked s (show t.headerHash = _ from rfl) .edit
  have hrun := @PathState.run_openFile _ _ (PathState.granted machine (granted t .edit)) _ _ _ _ rfl
    rfl rfl rfl hopen rfl
  exact ⟨out, granted t .edit, _, rfl, hrun, rfl, launched_le_maxOpens hrun (by
    rw [PathState.spent_openFile rfl rfl rfl]
    exact Nat.zero_lt_one)⟩

-- The grant allows one open. The file is opened and locked again, then the request is cancelled:
-- the watcher writes back the grant it was given, and the file opens a second time.
theorem opened_twice_of_one : ∃ (container : Bytes) (held : Held) (s : PathState machine),
    held.session.maxOpens = 1 ∧
    run PathState.step (PathState.openFile locked (disk container) ++ (PathState.endSession ++
        ([.cancelRequest, .watchEnd false [⟨true, 0, none, fun _ => .unreachable, 150⟩], .watchStore] ++
          PathState.openFile locked (disk container))))
      (PathState.granted machine held) = some s ∧
    s.launched = 2 := by
  obtain ⟨h, out, headerBytes, frames, -, s⟩ := container_sealed .defaultPolicy
  let t := terms ⟨h.body.fid, libraries.sha256 headerBytes, h.body.own⟩ .edit 1
  obtain ⟨mat, ended, hopen, hend, -⟩ := runSession_locked s (show t.headerHash = _ from rfl) .edit
  let launch : Launch machine := ⟨granted t .edit, locked, disk out, mat, hopen, rfl⟩
  refine ⟨out, granted t .edit, ⟨some ⟨true, some (granted t .edit)⟩, true, [.running launch], .gone, 2⟩,
    rfl, ?_, rfl⟩
  rw [run_append, PathState.run_openFile rfl rfl rfl rfl hopen rfl, Option.bind_some, run_append,
    PathState.run_endSession rfl, hend, Option.map_some, Option.bind_some, run_append,
    PathState.run_cancel rfl rfl rfl rfl, Option.bind_some,
    PathState.run_openFile rfl rfl rfl rfl hopen rfl]
  rfl

end Reference

end Zbacs.Agent
