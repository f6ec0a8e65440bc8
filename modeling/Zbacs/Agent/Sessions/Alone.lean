import Zbacs.Agent.Sessions

namespace Zbacs.Agent.SessionThread

open Zbacs.Lib Zbacs.Core Zbacs.Proto Zbacs.Session

variable {L : Libraries} (pid : Nat) (input : SessionInput)

-- A session that goes on with nobody in between, and always meets the same.
def alone : Nat → SessionThread L × Fs → SessionThread L × Fs
  | 0, s => s
  | n + 1, (t, fs) => alone n (t.run pid input fs).2

-- The grant as it is held after that.
def become (t : SessionThread L) (held : Held) (stage : SessionStage) : SessionThread L :=
  { t with running := { t.running with held := held }, stage := stage }

variable {pid input} {t t' : SessionThread L} {fs fs' : Fs}

theorem alone_step {t₁ : SessionThread L} {fs₁ : Fs} (hrun : (t.run pid input fs).2 = (t₁, fs₁))
    (h : ∃ n, alone pid input n (t₁, fs₁) = (t', fs')) :
    ∃ n, alone pid input n (t, fs) = (t', fs') := by
  obtain ⟨n, hn⟩ := h
  refine ⟨n + 1, ?_⟩
  rw [alone, hrun]
  exact hn

theorem alone_last (hrun : (t.run pid input fs).2 = (t', fs')) :
    ∃ n, alone pid input n (t, fs) = (t', fs') := alone_step hrun ⟨0, rfl⟩

-- The files go one by one, then the directory.
theorem alone_deleting {workspace : Workspace} {files : List Path} {how : End} (e : Option SessionError)
    (hstage : t.stage = .deleting workspace files how) :
    ∃ n, alone pid input n (t, fs) = (t.goTo (.ended how),
      if input.env.wipe.removeDir then (Workspace.deleteFiles input.env.wipe files e fs).2
      else (Workspace.deleteFiles input.env.wipe files e fs).2.removeTree workspace.root) := by
  induction files generalizing t fs e with
  | nil =>
      refine alone_last ?_
      unfold run
      rw [hstage]
      rfl
  | cons file files ih =>
      have hrest := fun e fs => @ih (t.goTo (.deleting workspace files how)) fs e rfl
      have hrun : (t.run pid input fs).2 = (t.goTo (.deleting workspace files how),
          (Workspace.secureDelete (input.env.wipe.delete file) file fs).2) := by
        unfold run
        rw [hstage]
      refine alone_step hrun ?_
      rw [Workspace.deleteFiles]
      rcases Workspace.secureDelete (input.env.wipe.delete file) file fs with ⟨error | ok, fs₁⟩
      · exact hrest _ _
      · exact hrest _ _

theorem alone_listing {workspace : Workspace} {how : End} (hstage : t.stage = .listing workspace how) :
    ∃ n, alone pid input n (t, fs) =
      (t.goTo (.ended how), (workspace.wipe input.env.wipe fs).2) := by
  have hwipe : (workspace.wipe input.env.wipe fs).2 = if input.env.wipe.removeDir then
      (Workspace.deleteFiles input.env.wipe (fs.filesIn workspace.root) none fs).2
      else (Workspace.deleteFiles input.env.wipe (fs.filesIn workspace.root) none fs).2.removeTree
        workspace.root := by
    unfold Workspace.wipe
    rcases Workspace.deleteFiles input.env.wipe (fs.filesIn workspace.root) none fs with ⟨e, fs₁⟩
    cases input.env.wipe.removeDir with
    | true => cases e <;> rfl
    | false => cases e <;> rfl
  rw [hwipe]
  have hrun : (t.run pid input fs).2 =
      (t.goTo (.deleting workspace (fs.filesIn workspace.root) how), fs) := by
    unfold run
    rw [hstage]
  exact alone_step hrun (alone_deleting none rfl)

-- What a session does at its end is `close`.
theorem alone_closing {mat : Materialised} {how : End} (hstage : t.stage = .closing mat how) :
    ∃ n, alone pid input n (t, fs) =
      (t.become (Agent.close mat t.running.held (eventOf how) input.env.now input.env.wipe fs).2.1
        (.ended how),
       (Agent.close mat t.running.held (eventOf how) input.env.now input.env.wipe fs).2.2) := by
  have hrun : t.run pid input fs = t.close mat how input.env.now fs := by
    unfold run
    rw [hstage]
  unfold Agent.close
  unfold close at hrun
  cases happly : t.running.held.session.apply (eventOf how) input.env.now with
  | error e =>
      rw [happly] at hrun
      exact alone_last (congrArg Prod.snd hrun)
  | ok res =>
      rw [happly] at hrun
      dsimp only at hrun ⊢
      by_cases hroot : fs.exists? mat.workspace.root = true
      · rw [if_pos hroot] at hrun ⊢
        obtain ⟨n, hn⟩ := @alone_listing _ pid input ((t.hold res.1).goTo (.listing mat.workspace how))
          (mat.workspace.clearReadOnly mat.name fs).2 mat.workspace how rfl
        refine alone_step (congrArg Prod.snd hrun) ⟨n, hn.trans ?_⟩
        split
        · rename_i hwipe
          rw [hwipe]
          rfl
        · rename_i hwipe
          rw [hwipe]
          rfl
      · rw [if_neg hroot] at hrun ⊢
        exact alone_last (congrArg Prod.snd hrun)

-- What becomes of a session when its open has come to an end.
def opened (result : Except Problem Materialised) : SessionStage := match result with
  | .ok mat => .launching mat
  | .error e => .ended (.failed e)

theorem alone_settling {a : Admitted} {workspace : Workspace} {plain : Path} {fileName : String}
    (hstage : t.stage = .settling a workspace plain fileName) :
    ∃ n, alone pid input n (t, fs) =
      (t.goTo (opened (settleName workspace plain fileName a.effects input.env fs).1),
        (settleName workspace plain fileName a.effects input.env fs).2) := by
  refine alone_last ?_
  unfold run
  rw [hstage]
  dsimp only
  unfold settle
  rcases settleName workspace plain fileName a.effects input.env fs with ⟨e | mat, fs₁⟩
  · rfl
  · rfl

theorem alone_creating {a : Admitted} (hstage : t.stage = .creating a) :
    let out := extract L t.running.base (sessionIdOf t.startedAt pid) a.effects input.env a.header
      a.headerHash a.rest a.dek fs
    ∃ n, alone pid input n (t, fs) = (t.goTo (opened out.1), out.2.1) := by
  have hrun : t.run pid input fs = t.create pid a input.env fs := by
    unfold run
    rw [hstage]
  unfold create at hrun
  unfold extract
  rcases hcreate : Workspace.create t.running.base (sessionIdOf t.startedAt pid) input.env.create fs with
    ⟨e | workspace, fs₁⟩
  · rw [hcreate] at hrun
    exact alone_last (congrArg Prod.snd hrun)
  · rw [hcreate] at hrun
    dsimp only
    refine alone_step (congrArg Prod.snd hrun) ?_
    have hrun₁ : (t.goTo (.extracting a workspace)).run pid input fs₁ =
        (t.goTo (.extracting a workspace)).extractTo a workspace input.env fs₁ := rfl
    unfold extractTo at hrun₁
    cases hfile : workspace.file "opened.bin" with
    | error e =>
        rw [hfile] at hrun₁
        exact alone_last (congrArg Prod.snd hrun₁)
    | ok plain =>
        rw [hfile] at hrun₁
        dsimp only at hrun₁ ⊢
        by_cases hfree : input.env.createFile = true ∨ fs₁.lookup plain = some .dir
        · rw [if_pos hfree] at hrun₁ ⊢
          exact alone_last (congrArg Prod.snd hrun₁)
        · rw [if_neg hfree] at hrun₁ ⊢
          refine alone_step (congrArg Prod.snd hrun₁) ?_
          cases (openWithDek L.toPrimitives a.header a.headerHash a.rest input.env.sink a.dek).result with
          | error e => exact alone_listing rfl
          | ok got => exact alone_settling rfl

-- What a session does at its start is `materialise`.
theorem alone_called (hstage : t.stage = .called) :
    let m := materialise L t.running.sealed t.running.held t.running.device t.running.base
      (sessionIdOf t.startedAt pid) input.env fs
    ∃ n, alone pid input n (t, fs) = (t.become m.held (opened m.result), m.fs) := by
  have hrun : t.run pid input fs = t.check input.env fs := by
    unfold run
    rw [hstage]
  unfold check preflight at hrun
  unfold materialise
  cases hunlock : unlock L t.running.sealed t.running.held t.running.device input.env fs with
  | error e =>
      rw [hunlock] at hrun
      exact alone_last (congrArg Prod.snd hrun)
  | ok got =>
      obtain ⟨dek, header, headerHash, rest⟩ := got
      rw [hunlock] at hrun
      dsimp only at hrun ⊢
      cases happly : t.running.held.session.apply .opened input.env.now with
      | error e =>
          rw [happly] at hrun
          exact alone_last (congrArg Prod.snd hrun)
      | ok res =>
          obtain ⟨session, effects⟩ := res
          rw [happly] at hrun
          dsimp only at hrun ⊢
          by_cases hwipe : .wipeWorkspace ∈ effects
          · rw [if_pos hwipe] at hrun ⊢
            exact alone_last (congrArg Prod.snd hrun)
          · rw [if_neg hwipe] at hrun ⊢
            have hcreate := @alone_creating L pid input
              ((t.hold session).goTo (.creating ⟨dek, header, headerHash, rest, session, effects⟩)) fs
              ⟨dek, header, headerHash, rest, session, effects⟩ rfl
            simp only [hold, goTo] at hrun hcreate
            generalize extract L t.running.base (sessionIdOf t.startedAt pid) effects input.env header
              headerHash rest dek fs = out at hcreate ⊢
            obtain ⟨result, fs₁, written⟩ := out
            exact alone_step (congrArg Prod.snd hrun) hcreate

end Zbacs.Agent.SessionThread
