import Zbacs.Agent.OpenFile.Budget

namespace Zbacs.Agent

open Zbacs.Lib Zbacs.Core Zbacs.Proto Zbacs.Session

section

variable {L : Libraries} {machine : Machine L} {held : Held} {script : Script} {fs : Fs}

namespace PathState

-- One whole session after the other, nobody coming between.
def playAll (plays : List (Script × Fs)) : List Action :=
  plays.flatMap fun play => openFile play.1 play.2 ++ endSession

-- `open_file` accepts the path, and its session gets to `Open`.
def Reopens (s : PathState machine) (script : Script) (fs : Fs) : Prop :=
  ∃ s' held mat, run step acceptFile s = some s' ∧ s'.tasks = [.starting held] ∧
    (openSession L (machine.running held) script fs).result = .ok mat ∧
    (openSession L (machine.running held) script fs).held.session.state = .opened

variable {s t : PathState machine}

-- A session that was shown and has ended leaves a grant that is used.
theorem run_play (htasks : s.tasks = []) (h : run step (openFile script fs ++ endSession) s = some t) :
    t.tasks = [] ∧ ∀ held, t.active.bind (·.held) = some held → held.session.state ≠ .granted := by
  rw [openFile, List.append_assoc, List.singleton_append, run_append, Option.bind_eq_some_iff] at h
  obtain ⟨accepted, haccept, hrest⟩ := h
  obtain ⟨held, -, -, -, rfl⟩ := (run_acceptFile_eq_some htasks).mp haccept
  obtain ⟨started, hstart, hend⟩ := run_cons_eq_some.mp hrest
  simp only [step, List.getElem?_cons_zero, startTask] at hstart
  split at hstart
  · rename_i mat hopen hlaunch
    cases hstart
    rw [run_endSession rfl, Option.map_eq_some_iff] at hend
    obtain ⟨ended, hsession, rfl⟩ := hend
    have hterminal := runSession_launched hopen hlaunch hsession
    refine ⟨rfl, fun held' hactive hgranted => ?_⟩
    cases hbefore : s.active with
    | none => simp [become, countLaunch, hbefore] at hactive
    | some active =>
        obtain rfl : ended.held = held' := by
          simpa [become, countLaunch, hbefore] using hactive
        rw [hgranted] at hterminal
        cases hterminal
  · -- the session ended before its viewer was up
    obtain ⟨ended, -, rfl⟩ := Option.map_eq_some_iff.mp hstart
    simp [endSession, run, step, become] at hend

-- Whole sessions leave the grant as it was taken only if there were none.
theorem run_playAll {plays : List (Script × Fs)} (hrun : run step (playAll plays) s = some t)
    (htasks : s.tasks = []) : t.tasks = [] ∧ (plays ≠ [] →
      ∀ held, t.active.bind (·.held) = some held → held.session.state ≠ .granted) := by
  induction plays generalizing s with
  | nil =>
      cases hrun
      exact ⟨htasks, fun hne => absurd rfl hne⟩
  | cons play plays ih =>
      rw [playAll, List.flatMap_cons, run_append, Option.bind_eq_some_iff] at hrun
      obtain ⟨after, hplay, hrest⟩ := hrun
      obtain ⟨hidle, hused⟩ := run_play htasks hplay
      obtain ⟨hdone, hmore⟩ := ih hrest hidle
      refine ⟨hdone, fun _ => ?_⟩
      by_cases hplays : plays = []
      · subst hplays
        cases hrest
        exact hused
      · exact hmore hplays

theorem not_reopens {plays : List (Script × Fs)} (hplays : plays ≠ [])
    (hrun : run step (playAll plays) s = some t) (htasks : s.tasks = []) (script : Script) (fs : Fs) :
    ¬t.Reopens script fs := by
  rintro ⟨t', held', mat, haccept, -⟩
  obtain ⟨hidle, hused⟩ := run_playAll hrun htasks
  obtain ⟨held, hactive, hgranted, -⟩ := (run_acceptFile_eq_some hidle).mp haccept
  exact hused hplays held hactive hgranted

end PathState

-- After any number of whole sessions under a grant that allows one more, the granted version
-- being on disk and the machine in order, the file opens again exactly if there were none.
theorem reopens_iff {plays : List (Script × Fs)} {s : PathState machine}
    (hrun : run PathState.step (PathState.playAll plays) (PathState.granted machine held) = some s)
    (hstate : held.session.state = .granted)
    (hbudget : held.session.maxOpens = 0 ∨
      held.session.opens.toNat + plays.length < held.session.maxOpens.toNat)
    {plaintext : Bytes} {ownerPk : FixedBytes 32} {signer : SigningKeys} {opts : SealOptions}
    {rng : SealRandom} {h : Header} {out headerBytes frames : Bytes} (hP : L.toPrimitives.Lawful)
    (hsealed : SealedAs L.toPrimitives plaintext ownerPk signer opts rng h out headerBytes frames)
    (hopts : opts.Sealable L.toPrimitives) (hlen : plaintext.length < 2 ^ 64)
    (hname : GoodName opts.fileName) (hquiet : script.open?.Quiet)
    (hroom : Workspace.Room machine.base (sessionIdOf script.open?.now script.pid) fs)
    (hfile : fs.readFile machine.sealed = some out) {terms : AccessGrantTerms}
    (hkey : grantKey L held machine.device = .ok (terms, rng.dek))
    (hversion : terms.headerHash = L.sha256 headerBytes) :
    s.Reopens script fs ↔ plays = [] := by
  constructor
  · intro hreopens
    by_contra hplays
    exact PathState.not_reopens hplays hrun rfl script fs hreopens
  · rintro rfl
    cases hrun
    have hleft : held.session.maxOpens = 0 ∨ held.session.opens < held.session.maxOpens := by
      rw [UInt16.lt_iff_toNat_lt]
      simpa using hbudget
    obtain ⟨effects, fs', hopen, -⟩ := materialise_ok hP hsealed hopts hlen hname hquiet
      (goodId_sessionIdOf script.open?.now script.pid) hroom hfile hkey hversion hstate hleft
    exact ⟨_, held, _, (PathState.run_acceptFile_eq_some rfl).mpr ⟨held, rfl, hstate, rfl, rfl⟩, rfl,
      congrArg OpenStep.result hopen, congrArg (·.held.session.state) hopen⟩

end

namespace Reference

theorem reopens_iff_first_open : ∃ (container : Bytes) (held : Held), held.session.maxOpens = 2 ∧
    (PathState.granted machine held).Reopens locked (disk container) := by
  obtain ⟨h, out, headerBytes, frames, -, s⟩ := container_sealed .defaultPolicy
  let t := terms ⟨h.body.fid, libraries.sha256 headerBytes, h.body.own⟩ .edit 2
  refine ⟨out, granted t .edit, rfl, (reopens_iff (show run PathState.step (PathState.playAll [])
    (PathState.granted machine (granted t .edit)) = _ from rfl) rfl (.inr (show 0 + 0 < 2 by decide))
    libraries_lawful s (options_sealable _) Core.Reference.input.length_lt (goodName _)
    (OpenEnv.calm_quiet 130) (disk_room out _) (readFile_disk out) (grantKey_eq rfl rfl) rfl).mpr rfl⟩

-- Two opens are allowed. The file was open once and is locked again: that was all.
theorem opened_once_of_two : ∃ (container : Bytes) (held : Held) (ended : Ended)
    (s : PathState machine),
    held.session.maxOpens = 2 ∧
    runSession libraries (machine.running held) locked (disk container) = some ended ∧
    ended.how = .closed ∧
    run PathState.step (PathState.playAll [(locked, disk container)])
      (PathState.granted machine held) = some s ∧
    ∀ script fs, ¬s.Reopens script fs := by
  obtain ⟨h, out, headerBytes, frames, -, s⟩ := container_sealed .defaultPolicy
  let t := terms ⟨h.body.fid, libraries.sha256 headerBytes, h.body.own⟩ .edit 2
  obtain ⟨mat, ended, hopen, hend, hclosed⟩ := runSession_locked s (show t.headerHash = _ from rfl) .edit
  have hrun : run PathState.step (PathState.playAll [(locked, disk out)])
      (PathState.granted machine (granted t .edit)) =
        some ⟨some ⟨false, some ended.held⟩, false, [], .watching (granted t .edit), 1⟩ := by
    rw [PathState.playAll, List.flatMap_singleton, run_append,
      PathState.run_openFile rfl rfl rfl rfl hopen rfl, Option.bind_some, PathState.run_endSession rfl,
      hend, Option.map_some]
    rfl
  exact ⟨out, granted t .edit, ended, _, rfl, hend, hclosed, hrun,
    PathState.not_reopens (by simp) hrun rfl⟩

end Reference

end Zbacs.Agent
