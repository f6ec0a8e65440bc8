import Zbacs.Session.Wipe.Removal

namespace Zbacs.Session.OnDisk

open Zbacs.Lib

-- A file of the tree below a directory.
structure FileIn (d : Disk) (root p : Path) (i : Nat) : Prop where
  entry : d.entry p = some (.file i)
  tree : Below d root p
  inside : root ≠ p

-- No call on this file fails.
def Faults.Spares (faults : Faults) (p : Path) : Prop := faults.stop p = none ∧ faults.blocked p = false

-- A file of the tree after the wipe: all its bytes were overwritten, and its name is gone.
structure Destroyed (d d' : Disk) (p : Path) (i : Nat) : Prop where
  zeroed : Zeroed (d.inodes i) (d'.inodes i)
  gone : d'.entry p = none

-- A wipe that reports no error has destroyed every file of the tree, and the directory is gone.
def WipesAll (w : Workspace) (listing : Listing) (faults : Faults) (d : Disk) : Prop :=
  (wipe w listing faults d).1 = .ok () →
    (∀ p i, FileIn d w.root p i → Destroyed d (wipe w listing faults d).2 p i) ∧
      (wipe w listing faults d).2.entry w.root = none

-- One that reports an error has destroyed every file whose own calls went well.
structure Wipes (w : Workspace) (listing : Listing) (faults : Faults) (d : Disk) : Prop where
  ok : WipesAll w listing faults d
  error : (wipe w listing faults d).1 ≠ .ok () →
    ∀ p i, FileIn d w.root p i → faults.Spares p → Destroyed d (wipe w listing faults d).2 p i

-- A path that is shown leads to the file.
def Reached (w : Workspace) (listing : Listing) (d : Disk) (i : Nat) : Prop :=
  ∃ q ∈ listed w listing d, listing.skipped q = false ∧ d.fileOf q = some i

-- Every file of the tree is directly in the directory, and is shown there.
def AllShown (w : Workspace) (listing : Listing) (d : Disk) : Prop :=
  ∀ p i, FileIn d w.root p i → p.dropLast = w.root ∧ listing.readDir = false ∧ listing.skipped p = false

section

variable {w : Workspace} {listing : Listing} {faults : Faults} {d d' : Disk} {p path : Path} {i : Nat}

theorem FileIn.root_dir (h : FileIn d w.root p i) : d.entry w.root = some .dir :=
  h.tree.dirs w.root (List.prefix_refl _) h.tree.under h.inside

-- What is shown of a directory that is no link.
theorem mem_listed (hroot : d.entry w.root = some .dir) : p ∈ listed w listing d ↔
    listing.readDir = false ∧ p ≠ [] ∧ p.dropLast = w.root ∧ d.entry p ≠ none := by
  unfold listed
  rw [Disk.readDir_of_dir hroot, Option.getD_some]
  cases listing.readDir with
  | true => simp
  | false => simp only [Bool.false_eq_true, if_false, Disk.mem_children, true_and]

theorem wipe_snd : (wipe w listing faults d).2 =
    (removeDirAll faults w.root (deleteFiles w listing faults d).2).2 := by
  unfold wipe
  rcases deleteFiles w listing faults d with ⟨firstError, d₁⟩
  dsimp only
  rcases removeDirAll faults w.root d₁ with ⟨e | ok, d₂⟩
  · cases e <;> cases firstError <;> rfl
  · cases firstError <;> rfl

-- A wipe reports no error exactly when neither part of it met one.
theorem wipe_eq_ok : (wipe w listing faults d).1 = .ok () ↔ (deleteFiles w listing faults d).1 = none ∧
    (removeDirAll faults w.root (deleteFiles w listing faults d).2).1 ≠ .error .other := by
  unfold wipe
  rcases deleteFiles w listing faults d with ⟨firstError, d₁⟩
  dsimp only
  rcases removeDirAll faults w.root d₁ with ⟨e | ok, d₂⟩
  · cases e <;> cases firstError <;> simp
  · cases firstError <;> simp

theorem entry_removeBelow {depth : Nat} (h : (removeBelow faults depth path d).1 = true) :
    (removeBelow faults depth path d).2.entry path = none := by
  cases depth with
  | zero => cases h
  | succ depth =>
      unfold removeBelow at h ⊢
      split at h
      · cases h
      · rename_i hopen
        rw [if_neg hopen]
        split at h
        · cases h
        · exact entry_removeName h

-- What was removed without an error is gone, and so is what was not there.
theorem entry_removeDirAll (h : (removeDirAll faults path d).1 ≠ .error .other) :
    (removeDirAll faults path d).2.entry path = none := by
  cases hentry : d.entry path with
  | none =>
      rw [removeDirAll, hentry]
      exact hentry
  | some e =>
      cases e with
      | file i =>
          rw [removeDirAll, hentry] at h
          exact absurd rfl h
      | symlink target =>
          rw [removeDirAll_symlink hentry] at h ⊢
          exact entry_removeName (by_contra fun hstuck => h (if_neg hstuck))
      | dir =>
          rw [removeDirAll_dir hentry] at h ⊢
          exact entry_removeBelow (by_contra fun hstuck => h (if_neg hstuck))

-- Phase by phase, a wipe only wipes.
theorem wiping_wipe : Wiping d (wipe w listing faults d).2 := by
  rw [wipe_snd]
  exact wiping_deleteEach.trans (removes_removeDirAll faults w.root _).wiping

-- A directory that cannot be opened keeps what it holds.
theorem removeDirAll_closed (hdir : d.entry path = some .dir) (hclosed : faults.closed path = true) :
    removeDirAll faults path d = (.error .other, d) := by
  have hbelow : removeBelow faults d.depth path d = (false, d) := by
    rw [Disk.depth, removeBelow, if_pos hclosed]
  rw [removeDirAll_dir hdir, hbelow, if_neg Bool.false_ne_true]

-- A name that is shown is of no file that is passed over.
theorem passed_over {q : Path} (hroot : d.entry w.root = some .dir)
    (hhidden : ¬(q.dropLast = w.root ∧ listing.readDir = false ∧ listing.skipped q = false)) :
    q ∈ listed w listing d → listing.skipped q = true := by
  intro hmem
  obtain ⟨hread, -, hdir, -⟩ := (mem_listed hroot).mp hmem
  by_contra hlooked
  rw [Bool.not_eq_true] at hlooked
  exact hhidden ⟨hdir, hread, hlooked⟩

-- Whatever fails, a file that is shown is destroyed where its own calls go well or no error is
-- reported.
theorem destroyed_of_shown (hfile : FileIn d w.root p i) (hdir : p.dropLast = w.root)
    (hread : listing.readDir = false) (hlooked : listing.skipped p = false)
    (hgood : faults.stop p = none ∨ (wipe w listing faults d).1 = .ok ()) :
    Destroyed d (wipe w listing faults d).2 p i := by
  have hne : p ≠ [] := by
    rintro rfl
    exact hfile.inside (List.prefix_nil.mp hfile.tree.under)
  have hthere : d.entry p ≠ none := by
    rw [hfile.entry]
    exact Option.some_ne_none _
  have hmem : p ∈ listed w listing d := (mem_listed hfile.root_dir).mpr ⟨hread, hne, hdir, hthere⟩
  obtain ⟨hzeroed, hgone⟩ : Zeroed (d.inodes i) ((deleteFiles w listing faults d).2.inodes i) ∧
      (deleteFiles w listing faults d).2.entry p = none :=
    deleted_deleteEach hmem hlooked hfile.entry (hgood.imp_right fun hok => (wipe_eq_ok.mp hok).1)
  have hremoves := removes_removeDirAll faults w.root (deleteFiles w listing faults d).2
  rw [wipe_snd]
  exact ⟨hzeroed.fades (hremoves.wiping.files i), hremoves.names.entry_eq_none hgone⟩

-- Once the directory cannot be opened, a file that is not shown is still there, and an error is
-- reported that is none of its own.
theorem not_destroyed_of_hidden (hfile : FileIn d w.root p i)
    (hhidden : ¬(p.dropLast = w.root ∧ listing.readDir = false ∧ listing.skipped p = false)) :
    ∃ faults : Faults, faults.Spares p ∧ (wipe w listing faults d).1 ≠ .ok () ∧
      (wipe w listing faults d).2.entry p = some (.file i) := by
  let faults : Faults := ⟨fun _ => none, fun q => q = w.root, fun _ => false⟩
  have hroot := hfile.root_dir
  have hstays : ∀ q, (q ∈ listed w listing d → listing.skipped q = true) →
      (deleteFiles w listing faults d).2.entry q = d.entry q := fun q hq => entry_deleteEach hq
  have hrootStays : (deleteFiles w listing faults d).2.entry w.root = some .dir := by
    rw [hstays w.root fun hmem => ?_, hroot]
    obtain ⟨-, hne, hdir, -⟩ := (mem_listed hroot).mp hmem
    have hlen := congrArg List.length hdir
    have := List.length_pos_iff.mpr hne
    rw [List.length_dropLast] at hlen
    omega
  have hclosed : removeDirAll faults w.root (deleteFiles w listing faults d).2 =
      (.error .other, (deleteFiles w listing faults d).2) :=
    removeDirAll_closed hrootStays (decide_eq_true rfl)
  refine ⟨faults, ⟨rfl, rfl⟩, fun hok => (wipe_eq_ok.mp hok).2 (by rw [hclosed]), ?_⟩
  rw [wipe_snd, hclosed]
  exact (hstays p (passed_over hroot hhidden)).trans hfile.entry

-- Which error-free wipes did their work.
theorem wipesAll_iff (w : Workspace) (listing : Listing) (d : Disk) :
    (∀ faults, WipesAll w listing faults d) ↔
      ∀ p i, FileIn d w.root p i → (d.inodes i).content = [] ∨ Reached w listing d i := by
  constructor
  · intro h p i hfile
    by_contra hneither
    obtain ⟨hfull, hfree⟩ := not_or.mp hneither
    -- a run in which nothing fails ends well and leaves the file as it was
    have hquiet := Faults.calm_quiet
    have hdeleted : (deleteFiles w listing .calm d).1 = none := deleteEach_quiet hquiet.stop rfl
    have hroot : (deleteFiles w listing .calm d).2.entry w.root = some .dir := dir_deleteEach hfile.root_dir
    have hok : (wipe w listing .calm d).1 = .ok () := wipe_eq_ok.mpr ⟨hdeleted, by
      rw [removeDirAll_quiet hquiet hroot]
      simp⟩
    have hsame : (wipe w listing .calm d).2.inodes i = d.inodes i := by
      rw [wipe_snd, (removes_removeDirAll Faults.calm w.root _).inodes]
      exact inodes_deleteEach fun q hq hlooked hfile => hfree ⟨q, hq, hlooked, hfile⟩
    have hwrites := ((h .calm hok).1 p i hfile).zeroed.writes hfull
    rw [hsame] at hwrites
    exact Nat.lt_irrefl _ hwrites
  · intro h faults hok
    obtain ⟨hdeleted, hremoved⟩ := wipe_eq_ok.mp hok
    refine ⟨fun p i hfile => ⟨?_, ?_⟩, ?_⟩
    · rcases h p i hfile with hempty | ⟨q, hq, hlooked, hq'⟩
      · refine ⟨?_, fun hfull => absurd hempty hfull⟩
        have hlen := (wiping_wipe.files i : Fades (d.inodes i) ((wipe w listing faults d).2.inodes i)).length
        rw [hempty] at hlen ⊢
        exact List.length_eq_zero_iff.mp hlen
      · rw [wipe_snd]
        exact (zeroed_deleteEach hq hlooked hq' hdeleted).1.fades
          ((removes_removeDirAll faults w.root _).wiping.files i)
    · rw [wipe_snd]
      exact gone_removeDirAll (dir_deleteEach hfile.root_dir) hremoved
        ⟨hfile.tree.under, fun r hr hrp hne => dir_deleteEach (hfile.tree.dirs r hr hrp hne)⟩
    · rw [wipe_snd]
      exact entry_removeDirAll hremoved

-- Whatever fails, a wipe does its work exactly when every file is directly in the directory and shown.
-- Of the wipes that report no error, just what each of them owes a file is that some path shown there
-- leads to it.
theorem wipes_iff (w : Workspace) (listing : Listing) (d : Disk) :
    ((∀ faults, Wipes w listing faults d) ↔ AllShown w listing d) ∧
    ((∀ faults, WipesAll w listing faults d) ↔
      ∀ p i, FileIn d w.root p i → (d.inodes i).content = [] ∨ Reached w listing d i) := by
  refine ⟨⟨fun h p i hfile => ?_, fun h faults => ⟨fun hok => ⟨fun p i hfile => ?_, ?_⟩,
    fun _ p i hfile hspares => ?_⟩⟩, wipesAll_iff w listing d⟩
  · by_contra hhidden
    obtain ⟨faults, hspares, herror, hthere⟩ := not_destroyed_of_hidden hfile hhidden
    have hgone := ((h faults).error herror p i hfile hspares).gone
    rw [hthere] at hgone
    cases hgone
  · obtain ⟨hdir, hread, hlooked⟩ := h p i hfile
    exact destroyed_of_shown hfile hdir hread hlooked (.inr hok)
  · rw [wipe_snd]
    exact entry_removeDirAll (wipe_eq_ok.mp hok).2
  · obtain ⟨hdir, hread, hlooked⟩ := h p i hfile
    exact destroyed_of_shown hfile hdir hread hlooked (.inl hspares.1)

end

namespace Reference

def session : Workspace := ⟨["w"]⟩

-- A viewer made a folder of its own.
def nested : Disk where
  names := [(["w"], .dir), (["w", "tmp"], .dir), (["w", "tmp", "copy"], .file 0)]
  inodes := fun _ => ⟨[1, 2, 3], false, 0⟩

def flat : Disk where
  names := [(["w"], .dir), (["w", "a.txt"], .file 0)]
  inodes := fun _ => ⟨[1, 2, 3], true, 0⟩

def unreadable : Listing := ⟨true, fun _ => false⟩

theorem fileIn_of_inits {d : Disk} {root p : Path} {i : Nat} (hentry : d.entry p = some (.file i))
    (hunder : root <+: p) (hinside : root ≠ p)
    (hdirs : ∀ q ∈ p.inits, root <+: q → q ≠ p → d.entry q = some .dir) : FileIn d root p i :=
  ⟨hentry, ⟨hunder, fun q hroot hq hne => hdirs q ((List.mem_inits q p).mpr hq) hroot hne⟩, hinside⟩

-- A folder inside is removed as it is, and where the directory cannot be read so is everything. Either
-- wipe reports no error.
theorem not_wipes : ¬Wipes session .calm .calm nested ∧ ¬Wipes session unreadable .calm flat := by
  constructor
  · intro h
    have hfile : FileIn nested session.root ["w", "tmp", "copy"] 0 :=
      fileIn_of_inits (by decide) (by decide) (by decide) (by decide)
    have hcontent := ((h.ok (by decide)).1 _ _ hfile).zeroed.content
    exact absurd hcontent (by decide)
  · intro h
    have hfile : FileIn flat session.root ["w", "a.txt"] 0 :=
      fileIn_of_inits (by decide) (by decide) (by decide) (by decide)
    have hcontent := ((h.ok (by decide)).1 _ _ hfile).zeroed.content
    exact absurd hcontent (by decide)

example : ((wipe session .calm .calm flat).2.inodes 0).content = [0, 0, 0] := by decide

end Reference

end Zbacs.Session.OnDisk
