import Zbacs.Agent.RunSession.Theorems
import Zbacs.Agent.Sessions

namespace Zbacs.Agent

open Zbacs.Lib Zbacs.Core Zbacs.Proto Zbacs.Session

variable {L : Libraries}

-- The process id is the same in all names.
theorem sessionIdOf_inj {now now' : UInt64} {pid : Nat} :
    sessionIdOf now pid = sessionIdOf now' pid ↔ now = now' := by
  constructor
  · intro h
    have hchars := congrArg String.toList h
    simp only [sessionIdOf, String.toList_append, List.append_cancel_right_eq,
      List.append_cancel_left_eq] at hchars
    have hdigits : Nat.toDigits 10 now.toNat = Nat.toDigits 10 now'.toNat := by
      simpa [toString, Nat.repr] using hchars
    have hvalue := congrArg (fun digits => Nat.ofDigitChars 10 digits 0) hdigits
    simp only [Nat.ofDigitChars_toDigits (show 1 < 10 by omega) (Nat.le_refl 10)] at hvalue
    exact UInt64.toNat_inj.mp hvalue
  · rintro rfl
    rfl

-- A path of one session is not on the way to another, nor in its directory.
theorem not_prefix_of_ne {base q : Path} {id id' : String} (hne : id ≠ id')
    (hq : base ++ [id] <+: q) : ¬base ++ [id'] <+: q := by
  intro hq'
  have hfront := List.prefix_of_prefix_length_le hq hq' (by simp)
  have heq := hfront.eq_of_length (by simp)
  exact hne (List.cons.inj (List.append_cancel_left heq)).1

theorem not_mem_ancestors_of_prefix {base q : Path} {id : String} (hq : base ++ [id] <+: q) :
    q ∉ Fs.ancestors base := by
  intro hmem
  have hlen := (Fs.mem_ancestors.mp hmem).1.length_le
  have hlen' := hq.length_le
  rw [List.length_append, List.length_singleton] at hlen'
  omega

namespace SessionThread

-- The workspace directory of a session.
def directory (pid : Nat) (t : SessionThread L) : Path :=
  t.running.base ++ [sessionIdOf t.startedAt pid]

-- From the checks of the open on, until the workspace is wiped or given up.
def InProgress (t : SessionThread L) : Prop := match t.stage with
  | .called | .ended _ => False
  | _ => True

-- What a session works on is in its directory.
def Placed (dir : Path) : SessionStage → Prop
  | .called | .creating _ | .ended _ => True
  | .extracting _ workspace | .listing workspace _ => workspace.root = dir
  | .settling _ workspace plain _ => workspace.root = dir ∧ dir <+: plain
  | .launching mat | .looping mat | .closing mat _ => mat.workspace.root = dir
  | .deleting workspace files _ => workspace.root = dir ∧ ∀ file ∈ files, dir <+: file

-- The open passes its checks.
def Begins (t : SessionThread L) (env : OpenEnv) (fs : Fs) : Prop :=
  t.stage = .called ∧ ∃ a, t.preflight env fs = .ok a ∧ .wipeWorkspace ∉ a.effects

-- The container a save replaces, and the temporary file beside it.
def SavesTo (t : SessionThread L) (q : Path) : Prop :=
  (∃ mat, t.stage = .looping mat) ∧
    (q = t.running.sealed ∨ q = withExtension t.running.sealed "zbacs.tmp")

-- What a step may do: it stays in the session's directory, the way there and the sealed file.
structure Confined (pid : Nat) (t : SessionThread L) (fs : Fs)
    (next : List SessionReport × SessionThread L × Fs) : Prop where
  startedAt : next.2.1.startedAt = t.startedAt
  base : next.2.1.running.base = t.running.base
  placed : Placed (t.directory pid) next.2.1.stage
  frame : ∀ q, ¬t.directory pid <+: q → q ∉ Fs.ancestors t.running.base → ¬t.SavesTo q →
    next.2.2.lookup q = fs.lookup q

section Steps

variable {pid : Nat} {t : SessionThread L} {fs fs' : Fs} {env : OpenEnv}

theorem Confined.directory {next : List SessionReport × SessionThread L × Fs}
    (h : Confined pid t fs next) : next.2.1.directory pid = t.directory pid := by
  unfold SessionThread.directory
  rw [h.base, h.startedAt]

theorem confined_finish (how : End)
    (hframe : ∀ q, ¬t.directory pid <+: q → q ∉ Fs.ancestors t.running.base → ¬t.SavesTo q →
      fs'.lookup q = fs.lookup q) : Confined pid t fs (t.finish how fs') :=
  ⟨rfl, rfl, trivial, hframe⟩

-- The checks of an open leave the disk alone.
theorem check_fs : (t.check env fs).2.2 = fs := by
  unfold check
  cases t.preflight env fs with
  | error e => rfl
  | ok a =>
      dsimp only
      split
      · rfl
      · rfl

theorem begins_of_unlock {dek : Dek} {header : Header} {headerHash : HeaderHash} {rest : Reader}
    {session : Zbacs.Session} {effects : List Effect} (hstage : t.stage = .called)
    (hunlock : unlock L t.running.sealed t.running.held t.running.device env fs =
      .ok (dek, header, headerHash, rest))
    (happly : t.running.held.session.apply .opened env.now = .ok (session, effects))
    (hwipe : .wipeWorkspace ∉ effects) : t.Begins env fs := by
  refine ⟨hstage, ⟨dek, header, headerHash, rest, session, effects⟩, ?_, hwipe⟩
  rw [preflight, hunlock]
  dsimp only
  rw [happly]

theorem confined_check : Confined pid t fs (t.check env fs) := by
  unfold check
  cases t.preflight env fs with
  | error e => exact confined_finish _ fun _ _ _ _ => rfl
  | ok a =>
      dsimp only
      split
      · exact ⟨rfl, rfl, trivial, fun _ _ _ _ => rfl⟩
      · exact ⟨rfl, rfl, trivial, fun _ _ _ _ => rfl⟩

theorem confined_create (a : Admitted) : Confined pid t fs (t.create pid a env fs) := by
  have hframe : ∀ q, ¬t.directory pid <+: q → q ∉ Fs.ancestors t.running.base → ¬t.SavesTo q →
      (Workspace.create t.running.base (sessionIdOf t.startedAt pid) env.create fs).2.lookup q =
        fs.lookup q := by
    intro q hdir hway _
    refine Workspace.lookup_create (goodId_sessionIdOf _ _) _ _ fun hmem => ?_
    obtain ⟨hfront, hne⟩ := Fs.mem_ancestors.mp hmem
    rcases List.prefix_concat_iff.mp hfront with rfl | hbase
    · exact hdir (List.prefix_refl _)
    · exact hway (Fs.mem_ancestors.mpr ⟨hbase, hne⟩)
  unfold create
  split
  · rename_i hcreate
    rw [hcreate] at hframe
    exact confined_finish _ hframe
  · rename_i hcreate
    rw [hcreate] at hframe
    exact ⟨rfl, rfl, Workspace.create_eq_ok hcreate, hframe⟩

theorem confined_extractTo (a : Admitted) {workspace : Workspace}
    (hroot : workspace.root = t.directory pid) :
    Confined pid t fs (t.extractTo a workspace env fs) := by
  unfold extractTo
  cases hfile : workspace.file "opened.bin" with
  | error e => exact confined_finish _ fun _ _ _ _ => rfl
  | ok plain =>
      have hplain : t.directory pid <+: plain := hroot ▸ Workspace.file_eq_ok hfile
      have hframe : ∀ node q, ¬t.directory pid <+: q → q ∉ Fs.ancestors t.running.base →
          ¬t.SavesTo q → (fs.insert plain node).lookup q = fs.lookup q := by
        intro node q hdir _ _
        refine Fs.lookup_insert_ne _ ?_
        rintro rfl
        exact hdir hplain
      dsimp only
      split
      · exact confined_finish _ fun _ _ _ _ => rfl
      · split
        · exact ⟨rfl, rfl, hroot, hframe _⟩
        · exact ⟨rfl, rfl, ⟨hroot, hplain⟩, hframe _⟩

theorem confined_settle (a : Admitted) {workspace : Workspace} {plain : Path} (fileName : String)
    (hroot : workspace.root = t.directory pid) (hplain : t.directory pid <+: plain) :
    Confined pid t fs (t.settle a workspace plain fileName env fs) := by
  have hframe : ∀ q, ¬t.directory pid <+: q → q ∉ Fs.ancestors t.running.base → ¬t.SavesTo q →
      (settleName workspace plain fileName a.effects env fs).2.lookup q = fs.lookup q := by
    intro q hdir _ _
    exact lookup_settleName _ _ (hroot ▸ hplain) (hroot ▸ hdir)
  unfold settle
  split
  · rename_i hsettle
    rw [hsettle] at hframe
    exact confined_finish _ hframe
  · rename_i hsettle
    rw [hsettle] at hframe
    have hmat := settleName_eq_ok (congrArg Prod.fst hsettle)
    exact ⟨rfl, rfl, (congrArg Workspace.root hmat).trans hroot, hframe⟩

theorem confined_launch {mat : Materialised} (launches : Bool)
    (hroot : mat.workspace.root = t.directory pid) : Confined pid t fs (t.launch mat launches fs) := by
  unfold launch
  split
  · exact ⟨rfl, rfl, hroot, fun _ _ _ _ => rfl⟩
  · exact ⟨rfl, rfl, hroot, fun _ _ _ _ => rfl⟩

-- The only thing the loop does on disk is to save.
theorem lookup_runRound {running : Running L} {mat : Materialised} {expiry : UInt64} {round : Round}
    {s : LoopState} {q : Path} (hsealed : q ≠ running.sealed)
    (htmp : q ≠ withExtension running.sealed "zbacs.tmp") :
    (runRound L running mat expiry { round with disk := id } s).1.fs.lookup q = s.fs.lookup q := by
  unfold runRound
  cases roundEnd expiry { round with disk := id } with
  | some how => rfl
  | none =>
      dsimp only [id]
      split
      · exact lookup_onSaved hsealed htmp
      · rfl

theorem confined_loop {mat : Materialised} (round : Round) (hstage : t.stage = .looping mat)
    (hroot : mat.workspace.root = t.directory pid) : Confined pid t fs (t.loop mat round fs) := by
  have hframe : ∀ q, ¬t.directory pid <+: q → q ∉ Fs.ancestors t.running.base → ¬t.SavesTo q →
      (t.loop mat round fs).2.2.lookup q = fs.lookup q := by
    intro q _ _ hsaves
    have hnot : q ≠ t.running.sealed ∧ q ≠ withExtension t.running.sealed "zbacs.tmp" := by
      rw [← not_or]
      exact fun hq => hsaves ⟨⟨mat, hstage⟩, hq⟩
    exact lookup_runRound hnot.1 hnot.2
  refine ⟨rfl, rfl, ?_, hframe⟩
  unfold loop
  rcases runRound L t.running mat t.expiry { round with disk := id } ⟨t.running.held, fs, [], []⟩ with
    ⟨s, none | how⟩
  · exact hroot
  · exact hroot

theorem confined_close {mat : Materialised} (how : End) (now : UInt64)
    (hroot : mat.workspace.root = t.directory pid) : Confined pid t fs (t.close mat how now fs) := by
  unfold close
  cases t.running.held.session.apply (eventOf how) now with
  | error e => exact confined_finish _ fun _ _ _ _ => rfl
  | ok res =>
      dsimp only
      split
      · refine ⟨rfl, rfl, hroot, fun q hdir _ _ => ?_⟩
        exact Workspace.lookup_setReadOnly _ (hroot ▸ hdir)
      · exact ⟨rfl, rfl, trivial, fun _ _ _ _ => rfl⟩

end Steps

-- Whatever a session does next stays where it belongs.
theorem confined_run (pid : Nat) {t : SessionThread L} (hplaced : Placed (t.directory pid) t.stage)
    (input : SessionInput) (fs : Fs) : Confined pid t fs (t.run pid input fs) := by
  unfold run
  cases hstage : t.stage with
  | called => exact confined_check
  | creating a => exact confined_create a
  | extracting a workspace =>
      rw [hstage] at hplaced
      exact confined_extractTo a hplaced
  | settling a workspace plain fileName =>
      rw [hstage] at hplaced
      exact confined_settle a fileName hplaced.1 hplaced.2
  | launching mat =>
      rw [hstage] at hplaced
      exact confined_launch _ hplaced
  | looping mat =>
      have hroot := hplaced
      rw [hstage] at hroot
      exact confined_loop _ hstage hroot
  | closing mat how =>
      rw [hstage] at hplaced
      exact confined_close _ _ hplaced
  | listing workspace how =>
      rw [hstage] at hplaced
      refine ⟨rfl, rfl, ⟨hplaced, fun file hfile => ?_⟩, fun _ _ _ _ => rfl⟩
      exact hplaced ▸ Fs.prefix_of_mem_filesIn hfile
  | deleting workspace files how =>
      rw [hstage] at hplaced
      cases files with
      | nil =>
          refine confined_finish _ fun q hdir _ _ => ?_
          split
          · rfl
          · rw [Fs.lookup_removeTree, if_neg (hplaced.1 ▸ hdir)]
      | cons file files =>
          refine ⟨rfl, rfl, ⟨hplaced.1, fun f hf => hplaced.2 f (List.mem_cons_of_mem _ hf)⟩,
            fun q hdir _ _ => Workspace.lookup_secureDelete _ ?_⟩
          rintro rfl
          exact hdir (hplaced.2 _ List.mem_cons_self)
  | ended how =>
      refine ⟨rfl, rfl, ?_, fun _ _ _ _ => rfl⟩
      rw [hstage]
      trivial

end SessionThread

end Zbacs.Agent
