import Zbacs.Agent.Editing
import Zbacs.Agent.Reference
import Zbacs.Agent.RunSession.Theorems
import Zbacs.Core.Path.Limits
import Zbacs.Lib.Trace

namespace Zbacs.Agent

open Zbacs.Lib Zbacs.Core Zbacs.Proto Zbacs.Session

-- A close touches nothing outside the workspace.
theorem lookup_close {mat : Materialised} (held : Held) (event : Event) (now : UInt64)
    (faults : WipeFaults) (fs : Fs) {q : Path} (hq : ¬mat.workspace.root <+: q) :
    (close mat held event now faults fs).2.2.lookup q = fs.lookup q := by
  unfold close
  cases held.session.apply event now with
  | error e => rfl
  | ok res =>
      dsimp only
      split
      · have hclear := @Workspace.lookup_setReadOnly mat.workspace fs mat.name false q hq
        have hwipe := @Workspace.lookup_wipe_outside mat.workspace faults
          (mat.workspace.clearReadOnly mat.name fs).2 q hq
        have hboth := hwipe.trans hclear
        split
        · rename_i hrun
          rw [hrun] at hboth
          exact hboth
        · rename_i hrun
          rw [hrun] at hboth
          exact hboth
      · rfl

namespace Editing

-- Whether the loop now reseals what is in the workspace file.
def reseals (s : Editing) : Move → Bool
  | .handle round => match s.stage with
    | .handling (some .saved) => s.loop.reseals round
    | _ => false
  | _ => false

-- What the session read from the file last: for a reseal, or what it was opened with.
def lastRead (plain : Path) (log : List (Taken Editing Move Unit)) (opened : Option Bytes) :
    Option Bytes :=
  log.foldl (fun content x =>
    if x.before.reseals x.input then x.before.loop.fs.readFile plain else content) opened

theorem lastRead_concat {plain : Path} {log : List (Taken Editing Move Unit)}
    {x : Taken Editing Move Unit} {opened : Option Bytes} :
    lastRead plain (log ++ [x]) opened = if x.before.reseals x.input then
      x.before.loop.fs.readFile plain else lastRead plain log opened := by
  rw [lastRead, List.foldl_append]
  rfl

-- Neither the files nor the viewer.
structure Unmoved (s s' : Editing) : Prop where
  loop : s'.loop = s.loop
  viewer : s'.viewer = s.viewer
  stage : (∀ e, s'.stage ≠ .ended (.failed e)) → ∀ e, s.stage ≠ .ended (.failed e)

section Moves

variable (L : Libraries) (running : Running L) (mat : Materialised) (expiry : UInt64)

theorem unmoved_check (s : Editing) (round : Round) :
    Unmoved s (step L running mat expiry s (.check round)).2 := by
  cases hstage : s.stage with
  | checking =>
      simp only [step, hstage]
      exact ⟨rfl, rfl, fun _ e => by simp [hstage]⟩
  | _ =>
      simp only [step, hstage]
      exact ⟨rfl, rfl, id⟩

theorem unmoved_wait (s : Editing) : Unmoved s (step L running mat expiry s .wait).2 := by
  cases hstage : s.stage with
  | waiting =>
      cases hwatcher : s.watcher with
      | none =>
          simp only [step, hstage, hwatcher]
          exact ⟨rfl, rfl, fun _ e => by simp [hstage]⟩
      | some w =>
          simp only [step, hstage, hwatcher]
          exact ⟨rfl, rfl, fun _ e => by simp [hstage]⟩
  | _ =>
      simp only [step, hstage]
      exact ⟨rfl, rfl, id⟩

-- What the watcher reports is a save, or something that the loop goes on after.
theorem unmoved_handle {s : Editing} (round : Round) (h : s.stage ≠ .handling (some .saved)) :
    s.reseals (.handle round) = false ∧ Unmoved s (step L running mat expiry s (.handle round)).2 := by
  cases hstage : s.stage with
  | handling event =>
      have hpassed : ∀ e, s.stage ≠ .ended (.failed e) := fun e => by simp [hstage]
      rcases event with _ | _ | _
      · simp only [step, reseals, hstage]
        exact ⟨trivial, rfl, rfl, fun _ => hpassed⟩
      · exact absurd hstage h
      · simp only [step, reseals, hstage]
        exact ⟨trivial, rfl, rfl, fun _ => hpassed⟩
  | _ =>
      simp only [step, reseals, hstage]
      exact ⟨trivial, rfl, rfl, id⟩

-- What a move can do: nothing to the session's files, a write, the viewer's exit, or what follows
-- from a save that the watcher has reported.
theorem step_cases (s : Editing) (move : Move) :
    (s.reseals move = false ∧ Unmoved s (step L running mat expiry s move).2) ∨
    (∃ new, move = .write new ∧ s.viewer = .running ∧ (step L running mat expiry s move).2 =
      { s with loop := { s.loop with fs := put mat.plain new s.loop.fs } }) ∨
    (move = .exit ∧ s.viewer = .running ∧ (step L running mat expiry s move).2 =
      { s with viewer := .exited (s.loop.fs.readFile mat.plain) }) ∨
    ∃ round, move = .handle round ∧ s.stage = .handling (some .saved) ∧
      (step L running mat expiry s move).2 = { s with
        loop := (onSaved L running mat round s.loop).1
        stage := .unless (onSaved L running mat round s.loop).2 .checking } := by
  cases move with
  | write new =>
      cases hviewer : s.viewer with
      | running => exact .inr (.inl ⟨new, rfl, rfl, by simp only [step, hviewer]⟩)
      | exited left =>
          left
          simp only [step, hviewer]
          exact ⟨rfl, rfl, rfl, id⟩
  | exit =>
      cases hviewer : s.viewer with
      | running => exact .inr (.inr (.inl ⟨rfl, rfl, by simp only [step, hviewer]⟩))
      | exited left =>
          left
          simp only [step, hviewer]
          exact ⟨rfl, rfl, rfl, id⟩
  | notify | receive | report => exact .inl ⟨rfl, rfl, rfl, id⟩
  | check round => exact .inl ⟨rfl, unmoved_check L running mat expiry s round⟩
  | wait => exact .inl ⟨rfl, unmoved_wait L running mat expiry s⟩
  | handle round =>
      by_cases hsaved : s.stage = .handling (some .saved)
      · exact .inr (.inr (.inr ⟨round, rfl, hsaved, by simp only [step, hsaved]⟩))
      · exact .inl (unmoved_handle L running mat expiry round hsaved)

end Moves

section

variable {L : Libraries} {running : Running L} {mat : Materialised} {expiry : UInt64}
  {owner : DeviceKeys L.toPrimitives} {content : Option Bytes} {s : Editing}

-- As long as no save failed, the container is one for the owner, of what was read last; and what
-- the viewer left stays where it is.
structure Kept (running : Running L) (mat : Materialised) (owner : DeviceKeys L.toPrimitives)
    (content : Option Bytes) (s : Editing) : Prop where
  sealedTo : (∀ e, s.stage ≠ .ended (.failed e)) → ∃ read container, content = some read ∧
    s.loop.fs.readFile running.sealed = some container ∧
      SealedFor L.toPrimitives owner read container
  left : ∀ left, s.viewer = .exited left → s.loop.fs.readFile mat.plain = left

-- The sealed file is somewhere else than the workspace file.
structure Elsewhere (running : Running L) (mat : Materialised) : Prop where
  sealed : mat.plain ≠ running.sealed
  tmp : mat.plain ≠ withExtension running.sealed "zbacs.tmp"

theorem readFile_put (helsewhere : Elsewhere running mat) (content : Option Bytes) (fs : Fs) :
    (put mat.plain content fs).readFile running.sealed = fs.readFile running.sealed := by
  cases content with
  | none =>
      refine Fs.readFile_congr ?_
      rw [put, Fs.lookup_remove, if_neg helsewhere.sealed.symm]
  | some content => exact Fs.readFile_congr (Fs.lookup_insert_ne _ helsewhere.sealed.symm)

theorem kept_handle (hP : L.toPrimitives.Lawful) (helsewhere : Elsewhere running mat) {round : Round}
    (hstage : s.stage = .handling (some .saved)) (h : Kept running mat owner content s) :
    Kept running mat owner (if s.loop.reseals round then s.loop.fs.readFile mat.plain else content)
      { s with
        loop := (onSaved L running mat round s.loop).1
        stage := .unless (onSaved L running mat round s.loop).2 .checking } := by
  obtain ⟨read, container, hcontent, hfile, hsealed⟩ := h.sealedTo (by simp [hstage])
  constructor
  · intro hfailed
    cases hreseals : s.loop.reseals round with
    | false =>
        rw [(onSaved_idle hreseals).1]
        exact ⟨read, container, hcontent, hfile, hsealed⟩
    | true =>
        obtain ⟨held, hfs, ⟨e, hend⟩ | ⟨-, saved, hsaved⟩⟩ := @onSaved_reseals _ running mat _ _ hreseals
        · exact absurd (by rw [hend]; rfl) (hfailed e)
        · obtain ⟨dek, policy, header, hreseal⟩ := save_eq_ok hsaved
          obtain ⟨read', container', hread, hthere, hsealed'⟩ := hsealed.reseal hP hfile hreseal
          rw [hfs]
          exact ⟨read', container', hread, hthere, hsealed'⟩
  · intro left hleft
    exact (Fs.readFile_congr (lookup_onSaved helsewhere.sealed helsewhere.tmp)).trans (h.left left hleft)

theorem kept_step (hP : L.toPrimitives.Lawful) (helsewhere : Elsewhere running mat) (move : Move)
    (h : Kept running mat owner content s) :
    Kept running mat owner (if s.reseals move then s.loop.fs.readFile mat.plain else content)
      (step L running mat expiry s move).2 := by
  rcases step_cases L running mat expiry s move with
    ⟨hquiet, hunmoved⟩ | ⟨new, rfl, hviewer, hstep⟩ | ⟨rfl, hviewer, hstep⟩ |
    ⟨round, rfl, hstage, hstep⟩
  · rw [hquiet]
    constructor
    · intro hfailed
      rw [hunmoved.loop]
      exact h.sealedTo (hunmoved.stage hfailed)
    · intro left hleft
      rw [hunmoved.loop]
      exact h.left left (hunmoved.viewer ▸ hleft)
  · rw [hstep]
    constructor
    · intro hfailed
      obtain ⟨read, container, hcontent, hfile, hsealed⟩ := h.sealedTo hfailed
      exact ⟨read, container, hcontent, (readFile_put helsewhere new _).trans hfile, hsealed⟩
    · intro left hleft
      rw [show s.viewer = .exited left from hleft] at hviewer
      cases hviewer
  · rw [hstep]
    exact ⟨h.sealedTo, fun left hleft => ViewerProcess.exited.inj hleft⟩
  · have hreseals : s.reseals (.handle round) = s.loop.reseals round := by
      simp only [reseals, hstage]
    rw [hreseals, hstep]
    exact kept_handle hP helsewhere hstage h

theorem kept_final (hP : L.toPrimitives.Lawful) (helsewhere : Elsewhere running mat)
    (h : Kept running mat owner content s) (moves : List Move) :
    Kept running mat owner (lastRead mat.plain (trace (step L running mat expiry) moves s) content)
      (final (step L running mat expiry) moves s) := by
  refine @trace_induct _ _ _ _ (fun log s => Kept running mat owner (lastRead mat.plain log content) s)
    s h ?_ moves
  intro log s move hkept
  rw [lastRead_concat]
  exact kept_step hP helsewhere move hkept

-- What an open leaves: the content of the container in the workspace, and the container as it was.
theorem kept_start {script : Script} {fs : Fs} {plaintext out headerBytes frames : Bytes}
    {author : SigningKeys} {opts : SealOptions} {rng : SealRandom} {h : Header}
    {terms : AccessGrantTerms} (hP : L.toPrimitives.Lawful)
    (sealing : SealedAs L.toPrimitives plaintext owner.x25519Pk author opts rng h out headerBytes frames)
    (hlen : plaintext.length < 2 ^ 64)
    (hkey : grantKey L running.held running.device = .ok (terms, rng.dek))
    (hfile : fs.readFile running.sealed = some out)
    (hopen : (openSession L running script fs).result = .ok mat)
    (houtside : ¬mat.workspace.root <+: running.sealed) (watched : Bool) (launch : ViewerLaunch) :
    Elsewhere running mat ∧ Kept running mat owner (some plaintext)
      (start mat (openSession L running script fs) watched launch) := by
  have hid := goodId_sessionIdOf script.open?.now script.pid
  rcases materialise_cases running.held running.device running.sealed running.base
    (sessionIdOf script.open?.now script.pid) script.open? fs with
    ⟨e, herror, -⟩ | ⟨dek, header, headerHash, rest, session, effects, hunlock, -, -, heq⟩
  · rw [openSession, herror] at hopen
    cases hopen
  · obtain ⟨-, terms', container, hkey', hfile', hread, -⟩ := unlock_eq_ok.mp hunlock
    obtain ⟨rfl, rfl⟩ := Prod.mk.inj (Except.ok.inj (hkey.symm.trans hkey'))
    obtain rfl : out = container := Option.some.inj (hfile.symm.trans hfile')
    have hopts := (sealing.withinLimits_of_readHeader hP (Reader.rest_ofData out _) hread)
    obtain ⟨r, hread', hstream⟩ := sealing.readHeader_eq hP hopts
      (Reader.rest_ofData out script.open?.offer)
    rw [hread] at hread'
    cases hread'
    rcases hextract : extract L running.base (sessionIdOf script.open?.now script.pid) effects
      script.open? h (L.sha256 headerBytes) rest rng.dek fs with ⟨result, fs', written⟩
    rw [hextract] at heq
    rw [openSession, heq] at hopen
    obtain rfl : result = .ok mat := hopen
    obtain ⟨hextracted, opened, hwritten⟩ := extract_reads hid hextract
    have hplaintext := sealing.openWithDek_eq (hP.aead.decrypt_encrypt sealing.name_eq.2)
      (sealing.framesOf.opens hP) hlen Sink.memory_total hstream
    obtain rfl : written = plaintext := congrArg OpenRun.written (hwritten.symm.trans hplaintext)
    rw [hextracted.root] at houtside
    have hinside := hextracted.inside
    refine ⟨⟨?_, ?_⟩, ?_⟩
    · intro hsame
      exact houtside (hsame ▸ hinside)
    · intro hsame
      exact withExtension_outside hid houtside (hsame ▸ hinside)
    · have hstart : (start mat (openSession L running script fs) watched launch).loop.fs = fs' := by
        rw [start, loopStart, openSession, heq]
      constructor
      · intro _
        obtain ⟨readonly, hthere⟩ := Fs.lookup_of_readFile hfile
        rw [hstart]
        exact ⟨written, out, rfl, Fs.readFile_of_lookup (hextracted.files _ _ _ hthere houtside),
          ⟨_, _, _, _, _, _, sealing, hopts⟩, hlen⟩
      · intro left hleft
        cases hleft

-- Between a read and the next write, what was read is what is there.
theorem lastRead_unwritten (helsewhere : Elsewhere running mat) {moves : List Move}
    (hmoves : ∀ content, .write content ∉ moves) (s : Editing) :
    lastRead mat.plain (trace (step L running mat expiry) moves s) (s.loop.fs.readFile mat.plain) =
      (final (step L running mat expiry) moves s).loop.fs.readFile mat.plain := by
  induction moves generalizing s with
  | nil => rfl
  | cons move moves ih =>
      have hsame : (step L running mat expiry s move).2.loop.fs.readFile mat.plain =
          s.loop.fs.readFile mat.plain := by
        rcases step_cases L running mat expiry s move with
          ⟨-, hunmoved⟩ | ⟨new, rfl, -⟩ | ⟨-, -, hstep⟩ | ⟨round, -, -, hstep⟩
        · rw [hunmoved.loop]
        · exact absurd List.mem_cons_self (hmoves new)
        · rw [hstep]
        · rw [hstep]
          exact Fs.readFile_congr (lookup_onSaved helsewhere.sealed helsewhere.tmp)
      have hrest := ih (fun content hmem => hmoves content (List.mem_cons_of_mem _ hmem))
        (step L running mat expiry s move).2
      rw [hsame] at hrest
      rw [final, ← hrest, trace, lastRead, List.foldl_cons]
      refine congrArg (lastRead mat.plain _) ?_
      split
      · rfl
      · rfl

-- What a session that has not failed leaves on disk when it closes.
theorem closed_container (h : Kept running mat owner content s)
    (hstage : ∀ e, s.stage ≠ .ended (.failed e)) (houtside : ¬mat.workspace.root <+: running.sealed)
    (event : Event) (closedAt : UInt64) (faults : WipeFaults) :
    ∃ read container, content = some read ∧
      (close mat s.loop.held event closedAt faults s.loop.fs).2.2.readFile running.sealed =
        some container ∧ SealedFor L.toPrimitives owner read container := by
  obtain ⟨read, container, hcontent, hfile, hsealed⟩ := h.sealedTo hstage
  exact ⟨read, container, hcontent,
    (Fs.readFile_congr (lookup_close _ _ _ _ _ houtside)).trans hfile, hsealed⟩

-- The session's check finds that the viewer has exited, and leaves the loop for it.
structure EndsByExit (expiry : UInt64) (round : Round) (left : Option Bytes) (s : Editing) : Prop where
  checking : s.stage = .checking
  notCancelled : round.cancelled = false
  closed : roundEnd expiry { round with viewer := s.isRunning round } = some .closed
  exited : s.viewer = .exited left

-- A session that ends because its viewer has exited leaves a container of what the viewer left in
-- the workspace file, exactly if that is what the session read there last.
theorem closed_kept_iff {script : Script} {fs : Fs} {plaintext out headerBytes frames : Bytes}
    {author : SigningKeys} {opts : SealOptions} {rng : SealRandom} {h : Header}
    {terms : AccessGrantTerms} (hP : L.toPrimitives.Lawful)
    (sealing : SealedAs L.toPrimitives plaintext owner.x25519Pk author opts rng h out headerBytes frames)
    (hlen : plaintext.length < 2 ^ 64)
    (hkey : grantKey L running.held running.device = .ok (terms, rng.dek))
    (hfile : fs.readFile running.sealed = some out)
    (hopen : (openSession L running script fs).result = .ok mat)
    (houtside : ¬mat.workspace.root <+: running.sealed) (watched : Bool) (launch : ViewerLaunch)
    (moves : List Move) {round : Round} {left : Option Bytes}
    (hend : EndsByExit (expiryOf running.held) round left
      (final (step L running mat (expiryOf running.held)) moves
        (start mat (openSession L running script fs) watched launch)))
    (closedAt : UInt64) (faults : WipeFaults) :
    (∃ content container, left = some content ∧
      (close mat (final (step L running mat (expiryOf running.held)) moves
          (start mat (openSession L running script fs) watched launch)).loop.held
        (eventOf .closed) closedAt faults
        (final (step L running mat (expiryOf running.held)) moves
          (start mat (openSession L running script fs) watched launch)).loop.fs).2.2.readFile
        running.sealed = some container ∧
      OpensTo L.toPrimitives owner container content) ↔
    lastRead mat.plain (trace (step L running mat (expiryOf running.held)) moves
      (start mat (openSession L running script fs) watched launch)) (some plaintext) = left := by
  obtain ⟨helsewhere, hstart⟩ := kept_start hP sealing hlen hkey hfile hopen houtside watched launch
  have hkept := @kept_final _ _ _ (expiryOf running.held) _ _ _ hP helsewhere hstart moves
  generalize final (step L running mat (expiryOf running.held)) moves
    (start mat (openSession L running script fs) watched launch) = s at hkept hend ⊢
  obtain ⟨read, container, hlast, hclosed, hsealed⟩ := closed_container hkept
    (fun e => by simp [hend.checking]) houtside (eventOf .closed) closedAt faults
  rw [hlast]
  constructor
  · rintro ⟨content, container', rfl, hfound, hopens⟩
    obtain rfl : container = container' := Option.some.inj (hclosed.symm.trans hfound)
    rw [(hsealed.opensTo hP).unique hopens]
  · rintro rfl
    exact ⟨read, container, rfl, hclosed, hsealed.opensTo hP⟩

end

namespace Reference

open Zbacs.Agent.Reference

theorem sealedElsewhere {effects : List Effect} : ¬(Materialised.workspace
    ⟨⟨base ++ [sessionIdOf 130 7]⟩, plain, "a.txt", effects⟩).root <+: Reference.sealed := by
  simp [base, Reference.sealed]

-- The viewer exits without having written anything.
theorem closed_kept_unwritten : ∃ (container : Bytes) (held : Held) (mat : Materialised),
    (openSession libraries (running held) (script []) (disk container)).result = .ok mat ∧
    ∃ content container', some [1, 2, 3, 4, 5] = some content ∧
      (close mat (final (step libraries (running held) mat 200) [.exit]
          (start mat (openSession libraries (running held) (script []) (disk container)) true
            .tracked)).loop.held (eventOf .closed) 140 .none
        (final (step libraries (running held) mat 200) [.exit]
          (start mat (openSession libraries (running held) (script []) (disk container)) true
            .tracked)).loop.fs).2.2.readFile Reference.sealed = some container' ∧
      OpensTo libraries.toPrimitives Core.Reference.owner.sealing container' content := by
  obtain ⟨h, out, headerBytes, frames, -, s⟩ := container_sealed .defaultPolicy
  let t := terms ⟨h.body.fid, libraries.sha256 headerBytes, h.body.own⟩ .edit 1
  obtain ⟨effects, fs', hopen, hplain, -⟩ := openSession_granted s (show t.headerHash = _ from rfl) .edit []
  have hresult := congrArg OpenStep.result hopen
  refine ⟨out, granted t .edit, _, hresult, ?_⟩
  refine (closed_kept_iff libraries_lawful s Core.Reference.input.length_lt (grantKey_eq rfl rfl)
    (readFile_disk out) hresult sealedElsewhere true .tracked [.exit]
    (show EndsByExit _ (round id none false) _ _ from ⟨rfl, rfl, rfl, ?_⟩) 140 .none).mpr rfl
  rw [hopen]
  exact congrArg _ hplain

-- The viewer saves and exits before the watcher has been quiet for long enough.
def savesAndExits : List Move :=
  [.write (some [6]), .notify (.event false [plain]), .receive 1000, .report 1000, .exit]

theorem saved_then_exited_lost : ∃ (container : Bytes) (held : Held) (mat : Materialised) (s : Editing),
    (openSession libraries (running held) (script []) (disk container)).result = .ok mat ∧
    s = final (step libraries (running held) mat 200) savesAndExits
      (start mat (openSession libraries (running held) (script []) (disk container)) true .tracked) ∧
    EndsByExit 200 (round id none false) (some [6]) s ∧
    ¬∃ content container', some [6] = some content ∧
      (close mat s.loop.held (eventOf .closed) 140 .none s.loop.fs).2.2.readFile Reference.sealed =
        some container' ∧
      OpensTo libraries.toPrimitives Core.Reference.owner.sealing container' content := by
  obtain ⟨h, out, headerBytes, frames, -, s⟩ := container_sealed .defaultPolicy
  let t := terms ⟨h.body.fid, libraries.sha256 headerBytes, h.body.own⟩ .edit 1
  obtain ⟨effects, fs', hopen, -⟩ := openSession_granted s (show t.headerHash = _ from rfl) .edit []
  have hresult := congrArg OpenStep.result hopen
  refine ⟨out, granted t .edit, _, _, hresult, rfl, ⟨rfl, rfl, rfl, ?_⟩, ?_⟩
  · exact congrArg _ (Fs.readFile_of_lookup (Fs.lookup_insert_self _ _))
  · obtain ⟨helsewhere, hstart⟩ := kept_start libraries_lawful s Core.Reference.input.length_lt
      (grantKey_eq rfl rfl) (readFile_disk out) hresult sealedElsewhere true .tracked
    have hkept := @kept_final _ _ _ 200 _ _ _ libraries_lawful helsewhere hstart savesAndExits
    obtain ⟨read, container, hread, hclosed, hsealed⟩ := closed_container hkept (fun e => nofun)
      sealedElsewhere (eventOf .closed) 140 .none
    rintro ⟨content, container', hcontent, hfound, hopens⟩
    obtain rfl : container = container' := Option.some.inj (hclosed.symm.trans hfound)
    have hsame := (hsealed.opensTo libraries_lawful).unique hopens
    have hinput : some Core.Reference.input.data = some read := hread
    rw [hsame, ← hcontent] at hinput
    exact absurd (Option.some.inj hinput) (by decide)

end Reference

end Editing

end Zbacs.Agent
