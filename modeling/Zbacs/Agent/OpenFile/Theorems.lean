import Zbacs.Agent.OpenFile
import Zbacs.Agent.RunSession.Theorems

namespace Zbacs.Agent

open Zbacs.Lib Zbacs.Core Zbacs.Proto Zbacs.Session

section

variable {L : Libraries} {running : Running L} {mat : Materialised} {script : Script} {fs : Fs}

-- A close applies its event to the session, whatever becomes of the wipe.
theorem close_held (held : Held) (event : Event) (now : UInt64) (faults : WipeFaults) :
    (close mat held event now faults fs).2.1 =
      { held with session := held.session.applied event now } := by
  unfold close Session.applied
  cases held.session.apply event now with
  | error e => rfl
  | ok res =>
      simp only
      split
      · split <;> rfl
      · rfl

theorem applied_eventOf {session : Zbacs.Session} (h : session.state = .opened) (ended : End)
    (now : UInt64) : (session.applied (eventOf ended) now).state.isTerminal := by
  obtain ⟨session', effects, happly, hterminal⟩ := apply_eventOf h ended now
  simp only [Session.applied, happly]
  exact hterminal

-- A session whose viewer was up has ended for good when it comes back.
theorem runSession_launched {ended : Ended}
    (hopen : (openSession L running script fs).result = .ok mat) (hlaunch : script.launches = true)
    (hrun : runSession L running script fs = some ended) :
    ended.held.session.state.isTerminal := by
  have hstate : (loopStart (openSession L running script fs)).held.session.state = .opened := by
    rw [loopStart, openSession, (materialise_eq_ok hopen).1]
  rcases hrounds : runRounds L running mat (expiryOf running.held) script.rounds
    (loopStart (openSession L running script fs)) with ⟨s, none | how⟩
  · simp only [runSession, hopen, hlaunch, hrounds, Bool.not_true, Bool.false_eq_true, if_false,
      reduceCtorEq] at hrun
  · rw [runSession_eq hopen hlaunch hrounds] at hrun
    cases hrun
    rw [close_held]
    by_cases hsaves : SavesSucceed L running mat (expiryOf running.held) script.rounds
      (loopStart (openSession L running script fs))
    · have hopened := runRounds_opened hstate hsaves
      rw [hrounds] at hopened
      exact applied_eventOf hopened how script.closedAt
    · obtain ⟨s', e, hfails, hfailed⟩ := runRounds_failed hstate hsaves
      rw [hrounds] at hfails
      cases hfails
      have hterminal : s.held.session.state.isTerminal := by rw [hfailed]; rfl
      rw [Session.applied_terminal hterminal]
      exact hterminal

end

namespace PathState

variable {L : Libraries} {machine : Machine L} {s : PathState machine} {held : Held}
  {script : Script} {fs : Fs} {mat : Materialised}

theorem startTask_launch (i : Nat)
    (hopen : (openSession L (machine.running held) script fs).result = .ok mat)
    (hlaunch : script.launches = true) :
    s.startTask i held script fs =
      some (s.become i (.running ⟨held, script, fs, mat, hopen, hlaunch⟩)).countLaunch := by
  unfold startTask
  split
  · rename_i mat' hopen' hlaunch'
    obtain rfl : mat = mat' := Except.ok.inj (hopen.symm.trans hopen')
    rfl
  · rename_i hnot
    exact absurd hlaunch (hnot mat hopen)

-- The path is accepted when a grant is in the map and the file is not open.
theorem run_acceptFile_eq_some {t : PathState machine} (htasks : s.tasks = []) :
    run step acceptFile s = some t ↔ ∃ held, s.active.bind (·.held) = some held ∧
      held.session.state = .granted ∧ s.sessions = false ∧
      ⟨s.active, true, [.starting held], s.watcher, s.launched⟩ = t := by
  cases hactive : s.active.bind (·.held) with
  | none => simp [acceptFile, run, step, hactive]
  | some held =>
      by_cases hstate : held.session.state = .granted
      · cases hsessions : s.sessions <;>
          simp [acceptFile, run, step, hactive, hstate, hsessions, htasks, drop, become, enter]
      · simp [acceptFile, run, step, hactive, hstate]

-- A granted file that opens is opened.
theorem run_openFile (hactive : s.active.bind (·.held) = some held)
    (hstate : held.session.state = .granted) (hsessions : s.sessions = false) (htasks : s.tasks = [])
    (hopen : (openSession L (machine.running held) script fs).result = .ok mat)
    (hlaunch : script.launches = true) :
    run step (openFile script fs) s =
      some ⟨s.active, true, [.running ⟨held, script, fs, mat, hopen, hlaunch⟩], s.watcher,
        s.launched + 1⟩ := by
  rw [openFile, run_append,
    (run_acceptFile_eq_some htasks).mpr ⟨held, hactive, hstate, hsessions, rfl⟩, Option.bind_some]
  simp [run, step, startTask_launch 0 hopen hlaunch, become, countLaunch]

-- The only session of the path ends, and its grant goes back.
theorem run_endSession {launch : Launch machine} (htasks : s.tasks = [.running launch]) :
    run step endSession s =
      (runSession L (machine.running launch.held) launch.script launch.fs).map fun ended =>
        ⟨s.active.map fun active => { active with held := some ended.held }, false, [], s.watcher,
          s.launched⟩ := by
  cases hrun : runSession L (machine.running launch.held) launch.script launch.fs with
  | none => simp [endSession, run, step, htasks, hrun]
  | some ended => simp [endSession, run, step, htasks, hrun, become, store, enter, drop]

-- A cancelled watcher puts back the grant as it was given to it.
theorem run_cancel {active : Active} {terms : AccessGrantTerms} {chain : Bool} {poll : Poll}
    (hactive : s.active = some active) (hwatcher : s.watcher = .watching held)
    (hterms : held.terms = some terms) (hpoll : poll.cancelled = true) :
    run step [.cancelRequest, .watchEnd chain [poll], .watchStore] s =
      some ⟨some ⟨true, some held⟩, s.sessions, s.tasks, .gone, s.launched⟩ := by
  simp [run, step, endWatch, watchGrant, store, hactive, hwatcher, hterms, hpoll]
  rw [← hterms]

-- What an action does where it is the task's turn.
inductive Stepped (s : PathState machine) : Action → PathState machine → Prop
  | read {held : Held} (hheld : s.active.bind (·.held) = some held) :
      Stepped s .openRead { s with tasks := s.tasks ++ [.read held] }
  | found {i : Nat} {held : Held} (hi : s.tasks[i]? = some (.read held)) :
      Stepped s (.openCheck i) (s.drop i)
  | passed {i : Nat} {held : Held} (hi : s.tasks[i]? = some (.read held)) (hsessions : s.sessions = false) :
      Stepped s (.openCheck i) (s.become i (.checked held))
  | failed {i : Nat} {held : Held} (hi : s.tasks[i]? = some (.checked held)) :
      Stepped s (.openFail i) (s.drop i)
  | entered {i : Nat} {held : Held} (hi : s.tasks[i]? = some (.checked held)) :
      Stepped s (.openInsert i) ((s.become i (.starting held)).enter true)
  | started {i : Nat} {held : Held} {script : Script} {fs : Fs} {s' : PathState machine}
      (hi : s.tasks[i]? = some (.starting held)) (hstart : s.startTask i held script fs = some s') :
      Stepped s (.start i script fs) s'
  | finished {i : Nat} {launch : Launch machine} {ended : Ended}
      (hi : s.tasks[i]? = some (.running launch))
      (hrun : runSession L (machine.running launch.held) launch.script launch.fs = some ended) :
      Stepped s (.finish i) (s.become i (.ended ended.held))
  | storedBack {i : Nat} {held : Held} (hi : s.tasks[i]? = some (.ended held)) :
      Stepped s (.storeBack i) ((s.become i .stored).store held)
  | removed {i : Nat} (hi : s.tasks[i]? = some .stored) : Stepped s (.remove i) ((s.drop i).enter false)
  | cancelled : Stepped s .cancelRequest
      { s with active := s.active.map fun active => { active with cancel := true } }
  | watchEnded {held : Held} {session : Zbacs.Session} {chain : Bool} {polls : List Poll}
      (hwatcher : s.watcher = .watching held) :
      Stepped s (.watchEnd chain polls) { s with watcher := .ended { held with session } }
  | watchStored {held : Held} (hwatcher : s.watcher = .ended held) :
      Stepped s .watchStore { s.store held with watcher := .gone }
  | locked : Stepped s .lockNow s

theorem step_stepped {s' : PathState machine} {a : Action} (h : s.step a = some s') : Stepped s a s' := by
  unfold step at h
  cases a with
  | openRead =>
      dsimp only at h
      split at h
      · cases h
      · rename_i held hheld
        split_ifs at h
        cases h
        exact .read hheld
  | openCheck i =>
      dsimp only at h
      split at h
      · rename_i held hi
        cases h
        cases hsessions : s.sessions with
        | true => exact .found hi
        | false => exact .passed hi hsessions
      · cases h
  | openFail i =>
      dsimp only at h
      split at h
      · rename_i held hi
        cases h
        exact .failed hi
      · cases h
  | openInsert i =>
      dsimp only at h
      split at h
      · rename_i held hi
        cases h
        exact .entered hi
      · cases h
  | start i script fs =>
      dsimp only at h
      split at h
      · rename_i held hi
        exact .started hi h
      · cases h
  | finish i =>
      dsimp only at h
      split at h
      · rename_i launch hi
        obtain ⟨ended, hrun, rfl⟩ := Option.map_eq_some_iff.mp h
        exact .finished hi hrun
      · cases h
  | storeBack i =>
      dsimp only at h
      split at h
      · rename_i held hi
        cases h
        exact .storedBack hi
      · cases h
  | remove i =>
      dsimp only at h
      split at h
      · rename_i hi
        cases h
        exact .removed hi
      · cases h
  | cancelRequest =>
      cases h
      exact .cancelled
  | watchEnd chain polls =>
      dsimp only at h
      split at h
      · rename_i held hwatcher
        split at h
        · cases h
        · simp only [endWatch] at h
          split at h
          · cases h
          · split_ifs at h
            cases h
            exact .watchEnded hwatcher
      · cases h
  | watchStore =>
      dsimp only at h
      split at h
      · rename_i held hwatcher
        cases h
        exact .watchStored hwatcher
      · cases h
  | lockNow =>
      dsimp only at h
      split_ifs at h
      cases h
      exact .locked

end PathState

end Zbacs.Agent
