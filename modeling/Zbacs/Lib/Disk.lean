import Mathlib.Logic.Function.Basic
import Zbacs.Lib.Fs

namespace Zbacs.Lib

-- What a name in a directory stands for. Two names may stand for the same file. A link leads to a
-- place whose own parents are directories.
inductive Entry where
  | dir
  | file (inode : Nat)
  | symlink (target : Path)
deriving DecidableEq, Repr

-- A file itself, and how often it was written to.
structure Inode where
  content : Bytes
  readonly : Bool
  writes : Nat
deriving DecidableEq

-- Bytes written over what a file holds from a position on. No bytes are no write.
def Inode.write (x : Inode) (pos : Nat) (bytes : Bytes) : Inode :=
  if bytes = [] then x
  else { x with
    content := x.content.take pos ++ bytes ++ x.content.drop (pos + bytes.length)
    writes := x.writes + 1 }

namespace Inode

variable {x : Inode} {pos : Nat} {bytes : Bytes}

@[simp] theorem write_nil (x : Inode) (pos : Nat) : x.write pos [] = x := rfl

@[simp] theorem readonly_write (x : Inode) (pos : Nat) (bytes : Bytes) :
    (x.write pos bytes).readonly = x.readonly := by
  unfold write
  split <;> rfl

theorem writes_write (h : bytes ≠ []) : (x.write pos bytes).writes = x.writes + 1 := by
  rw [write, if_neg h]

theorem writes_le_write (x : Inode) (pos : Nat) (bytes : Bytes) : x.writes ≤ (x.write pos bytes).writes := by
  unfold write
  split
  · exact Nat.le_refl _
  · exact Nat.le_succ _

theorem getElem?_write (h : pos + bytes.length ≤ x.content.length) (k : Nat) :
    (x.write pos bytes).content[k]? =
      if pos ≤ k ∧ k < pos + bytes.length then bytes[k - pos]? else x.content[k]? := by
  unfold write
  split
  · rename_i hnil
    rw [hnil, List.length_nil, if_neg (by omega)]
  · rw [List.append_assoc]
    have htake : (x.content.take pos).length = pos := by
      rw [List.length_take]
      omega
    by_cases hbefore : k < pos
    · rw [List.getElem?_append_left (by omega), List.getElem?_take_of_lt hbefore, if_neg (by omega)]
    · rw [List.getElem?_append_right (by omega), htake]
      by_cases hin : k < pos + bytes.length
      · rw [List.getElem?_append_left (by omega), if_pos (by omega)]
      · rw [List.getElem?_append_right (by omega), List.getElem?_drop, if_neg (by omega)]
        congr 1
        omega

theorem length_write (h : pos + bytes.length ≤ x.content.length) :
    (x.write pos bytes).content.length = x.content.length := by
  unfold write
  split
  · rfl
  · simp only [List.length_append, List.length_take, List.length_drop]
    omega

end Inode

-- A filesystem with links.
structure Disk where
  names : List (Path × Entry)
  inodes : Nat → Inode

-- How many links the system follows for one path.
def maxLinks : Nat := 40

namespace Disk

variable (d : Disk)

-- `symlink_metadata`: what the name itself is.
def entry (p : Path) : Option Entry := (d.names.find? fun e => e.1 = p).map Prod.snd

-- Where a path leads once every link is followed.
def follow : Nat → Path → Option Path
  | 0, _ => none
  | n + 1, p => match d.entry p with
    | none => none
    | some (.symlink target) => follow n target
    | some _ => some p

def real (p : Path) : Option Path := d.follow (maxLinks + 1) p

-- The file a path leads to.
def fileOf (p : Path) : Option Nat := match (d.real p).bind d.entry with
  | some (.file i) => some i
  | _ => none

-- `remove_file`: the name goes, a link is not followed.
def unlink (p : Path) : Disk := { d with names := d.names.filter fun e => e.1 ≠ p }

def setInode (i : Nat) (x : Inode) : Disk := { d with inodes := Function.update d.inodes i x }

-- The names directly in a directory.
def children (dir : Path) : List Path :=
  (d.names.filter fun e => e.1 ≠ [] ∧ e.1.dropLast = dir).map Prod.fst

-- No path is that long.
def depth : Nat := (d.names.map fun e => e.1.length).foldr max 0 + 1

-- `read_dir` follows the links to the directory.
def readDir (dir : Path) : Option (List Path) := match d.real dir with
  | none => none
  | some place => match d.entry place with
    | some .dir => some (d.children place)
    | _ => none

-- What can be seen at a name without following it: the file is seen with what it holds.
inductive Seen where
  | dir
  | file (inode : Nat) (data : Inode)
  | symlink (target : Path)
deriving DecidableEq

def see : Entry → Seen
  | .dir => .dir
  | .file i => .file i (d.inodes i)
  | .symlink target => .symlink target

def seen (p : Path) : Option Seen := (d.entry p).map d.see

variable {d} {d' : Disk} {p q c : Path} {i j n m : Nat} {x : Inode}

theorem entry_unlink (p q : Path) : (d.unlink p).entry q = if q = p then none else d.entry q := by
  rcases d with ⟨names, inodes⟩
  unfold entry unlink
  dsimp only
  induction names with
  | nil => simp
  | cons e rest ih =>
      by_cases hp : e.1 = p <;> by_cases hq : e.1 = q
      · have hqp : q = p := hq.symm.trans hp
        rw [List.filter_cons_of_neg (by simp [hp]), ih, if_pos hqp, if_pos hqp]
      · rw [List.filter_cons_of_neg (by simp [hp]), ih, List.find?_cons_of_neg (by simp [hq])]
      · have hqp : ¬q = p := fun h => hp (hq.trans h)
        rw [List.filter_cons_of_pos (by simp [hp]), List.find?_cons_of_pos (by simp [hq]),
          List.find?_cons_of_pos (by simp [hq]), if_neg hqp]
      · rw [List.filter_cons_of_pos (by simp [hp]), List.find?_cons_of_neg (by simp [hq]),
          List.find?_cons_of_neg (by simp [hq]), ih]

@[simp] theorem entry_setInode (p : Path) : (d.setInode i x).entry p = d.entry p := rfl

@[simp] theorem inodes_unlink (p : Path) : (d.unlink p).inodes = d.inodes := rfl

@[simp] theorem inodes_setInode_self : (d.setInode i x).inodes i = x := by
  simp [setInode]

theorem inodes_setInode_ne (h : j ≠ i) : (d.setInode i x).inodes j = d.inodes j := by
  simp [setInode, h]

theorem setInode_self : d.setInode i (d.inodes i) = d := by
  simp [setInode]

theorem mem_children : p ∈ d.children q ↔ p ≠ [] ∧ p.dropLast = q ∧ d.entry p ≠ none := by
  unfold children entry
  rw [List.mem_map]
  simp only [ne_eq, Option.map_eq_none_iff, List.find?_eq_none]
  constructor
  · rintro ⟨e, he, rfl⟩
    obtain ⟨hmem, hkeep⟩ := List.mem_filter.mp he
    rw [decide_eq_true_eq] at hkeep
    exact ⟨hkeep.1, hkeep.2, fun h => h e hmem (by simp)⟩
  · rintro ⟨hne, hdir, hthere⟩
    simp only [decide_eq_true_eq, not_forall, not_not] at hthere
    obtain ⟨e, hmem, rfl⟩ := hthere
    exact ⟨e, List.mem_filter.mpr ⟨hmem, by simp [hne, hdir]⟩, rfl⟩

theorem follow_succ (n : Nat) (p : Path) : d.follow (n + 1) p = match d.entry p with
    | none => none
    | some (.symlink target) => d.follow n target
    | some _ => some p := rfl

theorem fileOf_self (h : d.entry p = some (.file i)) : d.fileOf p = some i := by
  have hreal : d.real p = some p := by rw [real, follow_succ, h]
  rw [fileOf, hreal, Option.bind_some, h]

theorem follow_mono (h : d.follow n p = some c) (hle : n ≤ m) : d.follow m p = some c := by
  induction n generalizing p m with
  | zero => cases h
  | succ n ih =>
      obtain ⟨m, rfl⟩ := Nat.exists_eq_add_of_lt hle
      rw [show n + m + 1 = (n + m) + 1 from rfl]
      unfold follow at h ⊢
      split at h
      · cases h
      · exact ih h (Nat.le_add_right n m)
      · exact h

-- What is at the end of the links is there.
theorem entry_of_follow (h : d.follow n p = some c) : d.entry c ≠ none := by
  induction n generalizing p with
  | zero => cases h
  | succ n ih =>
      unfold follow at h
      split at h
      · cases h
      · exact ih h
      · rename_i e _ hentry
        cases h
        rw [hentry]
        exact Option.some_ne_none e

theorem fileOf_eq_some : d.fileOf p = some i ↔ ∃ c, d.real p = some c ∧ d.entry c = some (.file i) := by
  unfold fileOf
  constructor
  · intro h
    cases hreal : d.real p with
    | none =>
        rw [hreal] at h
        cases h
    | some c =>
        rw [hreal, Option.bind_some] at h
        split at h
        · rename_i hentry
          cases h
          exact ⟨c, rfl, hentry⟩
        · cases h
  · rintro ⟨c, hreal, hentry⟩
    rw [hreal, Option.bind_some, hentry]

@[simp] theorem follow_setInode : (d.setInode i x).follow n p = d.follow n p := by
  induction n generalizing p with
  | zero => rfl
  | succ n ih => simp only [follow, entry_setInode, ih]

@[simp] theorem fileOf_setInode : (d.setInode i x).fileOf p = d.fileOf p := by
  have hentry : (d.setInode i x).entry = d.entry := rfl
  simp only [fileOf, real, follow_setInode, hentry]

-- Whatever still has a name had it before.
def Shrinks (d d' : Disk) : Prop := ∀ p e, d'.entry p = some e → d.entry p = some e

theorem Shrinks.refl (d : Disk) : d.Shrinks d := fun _ _ h => h

theorem Shrinks.trans {d'' : Disk} (h : d.Shrinks d') (h' : d'.Shrinks d'') : d.Shrinks d'' :=
  fun p e hentry => h p e (h' p e hentry)

theorem shrinks_unlink (p : Path) : d.Shrinks (d.unlink p) := by
  intro q e h
  rw [entry_unlink] at h
  split at h
  · cases h
  · exact h

theorem shrinks_setInode (i : Nat) (x : Inode) : d.Shrinks (d.setInode i x) := fun _ _ h => h

theorem Shrinks.entry_eq_none (h : d.Shrinks d') (hnone : d.entry p = none) : d'.entry p = none := by
  cases hentry : d'.entry p with
  | none => rfl
  | some e => exact absurd (hnone.symm.trans (h p e hentry)) (by simp)

-- A path leads nowhere it did not lead to before.
theorem Shrinks.follow (h : d.Shrinks d') (hfollow : d'.follow n p = some c) :
    d.follow n p = some c := by
  induction n generalizing p with
  | zero => cases hfollow
  | succ n ih =>
      unfold Disk.follow at hfollow ⊢
      cases hentry : d'.entry p with
      | none =>
          rw [hentry] at hfollow
          cases hfollow
      | some e =>
          rw [hentry] at hfollow
          rw [h p e hentry]
          cases e with
          | dir | file => exact hfollow
          | symlink target => exact ih hfollow

theorem Shrinks.fileOf (h : d.Shrinks d') (hfile : d'.fileOf p = some i) : d.fileOf p = some i := by
  obtain ⟨c, hreal, hentry⟩ := fileOf_eq_some.mp hfile
  exact fileOf_eq_some.mpr ⟨c, h.follow hreal, h c _ hentry⟩

-- A link is broken only by the removal of a name that led to the same place.
theorem follow_unlink (h : d.follow n q = some c) :
    (d.unlink p).follow n q = some c ∨ ∃ m ≤ n, d.follow m p = some c := by
  induction n generalizing q with
  | zero => cases h
  | succ n ih =>
      by_cases hq : q = p
      · exact .inr ⟨n + 1, Nat.le_refl _, hq ▸ h⟩
      · rw [follow_succ] at h
        rw [follow_succ, entry_unlink, if_neg hq]
        cases hentry : d.entry q with
        | none =>
            rw [hentry] at h
            cases h
        | some e =>
            rw [hentry] at h
            cases e with
            | dir | file => exact .inl h
            | symlink target =>
                exact (ih h).imp_right fun ⟨m, hm, hfollow⟩ => ⟨m, hm.trans (Nat.le_succ n), hfollow⟩

theorem fileOf_unlink (h : d.fileOf q = some i) :
    (d.unlink p).fileOf q = some i ∨ d.fileOf p = some i := by
  obtain ⟨c, hreal, hentry⟩ := fileOf_eq_some.mp h
  rcases follow_unlink hreal with hkept | ⟨m, hm, hfollow⟩
  · have hthere := entry_of_follow hkept
    rw [entry_unlink] at hthere
    refine .inl (fileOf_eq_some.mpr ⟨c, hkept, ?_⟩)
    rw [entry_unlink, if_neg (fun hc => hthere (if_pos hc)), hentry]
  · exact .inr (fileOf_eq_some.mpr ⟨c, follow_mono hfollow hm, hentry⟩)

-- What a listing shows is in the directory the path leads to.
theorem readDir_eq_some {dir : Path} {listed : List Path} (h : d.readDir dir = some listed) :
    ∃ place, d.real dir = some place ∧ d.entry place = some .dir ∧ listed = d.children place := by
  unfold readDir at h
  cases hreal : d.real dir with
  | none =>
      rw [hreal] at h
      cases h
  | some place =>
      rw [hreal] at h
      dsimp only at h
      split at h
      · rename_i hentry
        cases h
        exact ⟨place, rfl, hentry, rfl⟩
      · cases h

-- What is listed where no link leads elsewhere.
theorem readDir_of_dir {dir : Path} (h : d.entry dir = some .dir) :
    d.readDir dir = some (d.children dir) := by
  have hreal : d.real dir = some dir := by rw [real, follow_succ, h]
  simp only [readDir, hreal, h]

theorem seen_congr (hentry : d'.entry p = d.entry p)
    (hinode : ∀ i, d.entry p = some (.file i) → d'.inodes i = d.inodes i) : d'.seen p = d.seen p := by
  unfold seen
  rw [hentry]
  cases h : d.entry p with
  | none => rfl
  | some e => cases e with
    | dir | symlink => rfl
    | file i => simp only [Option.map_some, see, hinode i h]

theorem seen_eq_file : d.seen p = some (.file i x) ↔ d.entry p = some (.file i) ∧ d.inodes i = x := by
  unfold seen
  cases d.entry p with
  | none => simp
  | some e => cases e with
    | dir | symlink => simp [see]
    | file j =>
        simp only [Option.map_some, see, Option.some.injEq, Seen.file.injEq, Entry.file.injEq]
        exact ⟨fun ⟨hj, hx⟩ => ⟨hj, hj ▸ hx⟩, fun ⟨hj, hx⟩ => ⟨hj, hj ▸ hx⟩⟩

theorem seen_eq_none : d.seen p = none ↔ d.entry p = none := Option.map_eq_none_iff

end Disk

end Zbacs.Lib
