import Zbacs.Agent.Reference
import Zbacs.Agent.RunSession.Theorems

namespace Zbacs.Agent

open Zbacs.Lib Zbacs.Core Zbacs.Proto Zbacs.Session

section

variable {L : Libraries} {running : Running L} {mat : Materialised} {script : Script} {fs : Fs}

variable (fs) in
-- A close that the state machine takes leaves nothing of the workspace.
theorem close_wipes {held : Held} {event : Event} {now : UInt64} {faults : WipeFaults}
    {session : Zbacs.Session} {effects : List Effect}
    (happly : held.session.apply event now = .ok (session, effects))
    (hremove : faults.removeDir = false) (hroot : mat.workspace.root ≠ []) :
    (close mat held event now faults fs).2.2.lookup mat.workspace.root = none ∧
      (fs.Tree → ∀ p, mat.workspace.root <+: p →
        (close mat held event now faults fs).2.2.lookup p = none) := by
  simp only [close, happly]
  by_cases hthere : fs.exists? mat.workspace.root
  · have hgone := fun p => @Workspace.lookup_wipe mat.workspace faults hremove
      (mat.workspace.clearReadOnly mat.name fs).2 p
    rw [if_pos hthere]
    split
    · rename_i hwipe
      rw [hwipe] at hgone
      exact ⟨hgone _ (List.prefix_refl _), fun _ p hp => hgone p hp⟩
    · rename_i hwipe
      rw [hwipe] at hgone
      exact ⟨hgone _ (List.prefix_refl _), fun _ p hp => hgone p hp⟩
  · rw [if_neg hthere]
    rw [Fs.exists?, Option.not_isSome_iff_eq_none] at hthere
    exact ⟨hthere, fun htree p hp => htree p _ hp hroot hthere⟩

-- One that it refuses does not touch the disk.
theorem close_refused {held : Held} (h : held.session.state.isTerminal) (event : Event)
    (now : UInt64) (faults : WipeFaults) :
    close mat held event now faults fs = (.error .session, held, fs) := by
  simp only [close, Session.apply_terminal h]

-- A session that got past its open has wiped its workspace when it returns, as long as
-- every save in it became a version. After the first one that did not, the state machine
-- has ended the session already and nothing is wiped.
theorem runSession_wipes {ended : Ended} (hopen : (openSession L running script fs).result = .ok mat)
    (hremove : script.wipe.removeDir = false) (hrun : runSession L running script fs = some ended) :
    ((script.launches → SavesSucceed L running mat (expiryOf running.held) script.rounds
        (loopStart (openSession L running script fs))) →
      ended.fs.lookup mat.workspace.root = none ∧
      ((∀ fs, (script.closing fs).Tree) → ∀ p, mat.workspace.root <+: p → ended.fs.lookup p = none)) ∧
    (¬(script.launches → SavesSucceed L running mat (expiryOf running.held) script.rounds
        (loopStart (openSession L running script fs))) →
      ∃ s e, runRounds L running mat (expiryOf running.held) script.rounds
          (loopStart (openSession L running script fs)) = (s, some (.failed e)) ∧
        ended.how = .failed e ∧ ended.fs = script.closing s.fs) := by
  obtain ⟨hheld, -, hroot⟩ := materialise_eq_ok hopen
  have hne : mat.workspace.root ≠ [] := by simp [hroot]
  have hstate : (loopStart (openSession L running script fs)).held.session.state = .opened := by
    rw [loopStart, openSession, hheld]
  have hstart : (openSession L running script fs).held.session.state = .opened := hstate
  simp only [runSession, hopen] at hrun
  by_cases hlaunch : script.launches = true
  · simp only [hlaunch, Bool.not_true, Bool.false_eq_true, if_false] at hrun
    simp only [hlaunch, forall_const]
    constructor
    · intro hsaves
      have hopened := runRounds_opened hstate hsaves
      split at hrun
      · cases hrun
      · rename_i s how hrounds
        rw [hrounds] at hopened
        obtain ⟨session', effects, happly, -⟩ := apply_eventOf hopened how script.closedAt
        obtain ⟨hgone, hbelow⟩ := close_wipes (script.closing s.fs) happly hremove hne
        cases hrun
        exact ⟨hgone, fun htree => hbelow (htree s.fs)⟩
    · intro hsaves
      obtain ⟨s, e, hrounds, hfailed⟩ := runRounds_failed hstate hsaves
      have hclosed := @close_refused mat (script.closing s.fs) s.held (by rw [hfailed]; rfl)
        (eventOf (.failed e)) script.closedAt script.wipe
      rw [hrounds] at hrun
      simp only [hclosed] at hrun
      cases hrun
      exact ⟨s, e, hrounds, rfl, rfl⟩
  · simp only [hlaunch, Bool.not_false, if_true] at hrun
    constructor
    · intro _
      obtain ⟨session', effects, happly, -⟩ := apply_eventOf hstart (.failed .noViewer) script.closedAt
      obtain ⟨hgone, hbelow⟩ := close_wipes (script.closing (openSession L running script fs).fs) happly
        hremove hne
      cases hrun
      exact ⟨hgone, fun htree => hbelow (htree _)⟩
    · intro hsaves
      exact absurd (fun h => absurd h hlaunch) hsaves

end

namespace Reference

theorem runSession_wipes_locked : ∃ (container : Bytes) (held : Held) (mat : Materialised)
    (ended : Ended),
    (openSession libraries (running held) (script [round id none true]) (disk container)).result =
      .ok mat ∧
    runSession libraries (running held) (script [round id none true]) (disk container) =
      some ended ∧
    ended.how = .closed ∧ ended.fs.lookup mat.workspace.root = none := by
  obtain ⟨h, out, headerBytes, frames, -, s⟩ := container_sealed .defaultPolicy
  let t := terms ⟨h.body.fid, libraries.sha256 headerBytes, h.body.own⟩ .edit 1
  let rounds := [round id none true]
  obtain ⟨effects, fs', hopen, -⟩ := openSession_granted s (show t.headerHash = _ from rfl) .edit rounds
  have hresult := congrArg OpenStep.result hopen
  have hrun := runSession_eq hresult rfl (show runRounds _ _ _ _ rounds _ = (_, some .closed) by
    rw [runRounds, runRound_ended rfl])
  exact ⟨out, granted t .edit, _, _, hresult, hrun, rfl,
    ((runSession_wipes hresult rfl hrun).1 fun _ =>
      savesSucceed_of_ended (show roundEnd _ (round id none true) = some .closed from rfl)).1⟩

-- The container is gone when the viewer saves.
theorem runSession_leaves_plaintext : ∃ (container : Bytes) (held : Held) (mat : Materialised)
    (ended : Ended),
    (openSession libraries (running held) (script [round (·.remove sealed) (some .saved) false])
      (disk container)).result = .ok mat ∧
    runSession libraries (running held) (script [round (·.remove sealed) (some .saved) false])
      (disk container) = some ended ∧
    ended.how = .failed .missing ∧ ended.fs.readFile mat.plain = some [1, 2, 3, 4, 5] := by
  obtain ⟨h, out, headerBytes, frames, -, s⟩ := container_sealed .defaultPolicy
  let t := terms ⟨h.body.fid, libraries.sha256 headerBytes, h.body.own⟩ .edit 1
  let lost := round (·.remove sealed) (some .saved) false
  obtain ⟨effects, fs', hopen, hplain, -⟩ :=
    openSession_granted s (show t.headerHash = _ from rfl) .edit [lost]
  have hresult := congrArg OpenStep.result hopen
  let start := loopStart (openSession libraries (running (granted t .edit)) (script [lost]) (disk out))
  have hstart : start.held = { granted t .edit with session :=
      { (granted t .edit).session with opens := 1, state := .opened } } :=
    congrArg OpenStep.held hopen
  have hfs : start.fs = fs' := congrArg OpenStep.fs hopen
  let mat : Materialised := ⟨⟨base ++ [sessionIdOf 130 7]⟩, plain, "a.txt", effects⟩
  have hlost : (start.fs.remove sealed).readFile sealed = none := by
    simp [Fs.readFile, Fs.lookup_remove]
  have hsave : saveIn libraries (running (granted t .edit)) mat lost start =
      ⟨.error .missing, start.held.saving, start.fs.remove sealed, []⟩ :=
    save_missing rfl (grantKey_eq (by rw [hstart]; rfl) (by rw [hstart]; rfl)) hlost
  obtain ⟨updates, hround⟩ := @runRound_fails libraries (running (granted t .edit)) mat
    (expiryOf (running (granted t .edit)).held) lost start (by rw [hstart]) ⟨rfl, rfl, by rw [hstart]; rfl⟩ .missing
    ⟨by rw [hsave], by rw [hsave], by rw [hsave]⟩
  have hrun := runSession_eq hresult rfl (show runRounds _ _ mat _ [lost] start = (_, some _) by
    rw [runRounds, hround])
  refine ⟨out, granted t .edit, mat, _, hresult, hrun, rfl, ?_⟩
  rw [close_refused rfl, hsave, hfs]
  have hne : plain ≠ sealed := by simp [plain, base, sealed]
  show (fs'.remove sealed).readFile plain = some Core.Reference.input.data
  rw [Fs.readFile, Fs.lookup_remove, if_neg hne]
  exact hplain

end Reference

end Zbacs.Agent
