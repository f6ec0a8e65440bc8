import Zbacs.Lib.Bytes
import Mathlib.Data.List.Infix

namespace Zbacs.Lib

abbrev Path := List String

-- `Path::join` with one component; `.` is the directory itself.
def Path.join (p : Path) (name : String) : Path := if name = "." then p else p ++ [name]

inductive Node where
  | file (content : Bytes) (readonly : Bool)
  | dir
deriving DecidableEq

-- A filesystem: the paths that exist, each with what is there.
structure Fs where
  entries : List (Path × Node)
deriving DecidableEq

namespace Fs

variable (fs : Fs)

def empty : Fs := ⟨[]⟩

def lookup (p : Path) : Option Node := (fs.entries.find? fun e => e.1 = p).map Prod.snd

def exists? (p : Path) : Bool := (fs.lookup p).isSome

-- What a file holds; a directory holds nothing.
def readFile (p : Path) : Option Bytes := match fs.lookup p with
  | some (.file content _) => some content
  | _ => none

def filterPaths (keep : Path → Bool) : Fs := ⟨fs.entries.filter fun e => keep e.1⟩

def remove (p : Path) : Fs := fs.filterPaths fun q => q ≠ p

def insert (p : Path) (n : Node) : Fs := ⟨(p, n) :: (fs.remove p).entries⟩

-- `remove_dir_all`: the directory and everything below it.
def removeTree (root : Path) : Fs := fs.filterPaths fun q => !root.isPrefixOf q

-- `read_dir`: the files directly inside a directory.
def filesIn (root : Path) : List Path :=
  fs.entries.filterMap fun e => match e.2 with
    | .file .. => if e.1.dropLast = root ∧ e.1 ≠ [] then some e.1 else none
    | .dir => none

-- `create_dir_all`: every missing directory on the way. A file in the way stops it.
def createDirAll : List Path → Fs → Option Fs
  | [], fs => some fs
  | p :: rest, fs => match fs.lookup p with
    | none => createDirAll rest (fs.insert p .dir)
    | some .dir => createDirAll rest fs
    | some (.file ..) => none

-- The path itself and everything above it, from the top.
def ancestors (p : Path) : List Path := p.inits.filter (· ≠ [])

-- `rename`: a file moves; what was at the target is gone, unless it is a directory.
def rename (src dst : Path) : Option Fs := match fs.lookup src, fs.lookup dst with
  | some _, some .dir => none
  | some n, _ => some ((fs.remove src).insert dst n)
  | none, _ => none

-- A tree: nothing is below what is not there.
def Tree : Prop := ∀ p q, q <+: p → q ≠ [] → fs.lookup q = none → fs.lookup p = none

variable {fs}

theorem lookup_filterPaths (keep : Path → Bool) (p : Path) :
    (fs.filterPaths keep).lookup p = if keep p then fs.lookup p else none := by
  rcases fs with ⟨entries⟩
  simp only [lookup, filterPaths]
  induction entries with
  | nil => simp
  | cons e rest ih =>
      by_cases he : e.1 = p
      · subst he
        by_cases hkeep : keep e.1
        · simp [hkeep]
        · simpa [hkeep] using ih
      · by_cases hkeep : keep e.1
        · simpa [hkeep, he] using ih
        · simpa [hkeep, he] using ih

@[simp] theorem lookup_insert_self (p : Path) (n : Node) : (fs.insert p n).lookup p = some n := by
  simp [lookup, insert]

theorem lookup_remove (p q : Path) :
    (fs.remove p).lookup q = if q = p then none else fs.lookup q := by
  rw [remove, lookup_filterPaths]
  by_cases h : q = p <;> simp [h]

theorem lookup_insert_ne {p q : Path} (n : Node) (h : q ≠ p) :
    (fs.insert p n).lookup q = fs.lookup q := by
  have hremove := @lookup_remove fs p q
  rw [if_neg h] at hremove
  rw [← hremove]
  simp [lookup, insert, Ne.symm h]

theorem insert_insert (p : Path) (n n' : Node) : (fs.insert p n).insert p n' = fs.insert p n' := by
  simp [insert, remove, filterPaths]

-- Nothing is left at or below a removed directory, and nothing else is touched.
theorem lookup_removeTree (root p : Path) :
    (fs.removeTree root).lookup p = if root <+: p then none else fs.lookup p := by
  rw [removeTree, lookup_filterPaths]
  by_cases h : root <+: p <;> simp [h]

theorem readFile_of_lookup {p : Path} {content : Bytes} {readonly : Bool}
    (h : fs.lookup p = some (.file content readonly)) : fs.readFile p = some content := by
  rw [readFile, h]

theorem readFile_congr {fs' : Fs} {p : Path} (h : fs'.lookup p = fs.lookup p) :
    fs'.readFile p = fs.readFile p := by
  rw [readFile, h, readFile]

theorem lookup_of_readFile {p : Path} {content : Bytes} (h : fs.readFile p = some content) :
    ∃ readonly, fs.lookup p = some (.file content readonly) := by
  unfold readFile at h
  split at h
  · rename_i readonly hnode
    cases h
    exact ⟨readonly, hnode⟩
  · cases h

-- What was moved is at the target.
theorem lookup_of_rename {src dst : Path} {n : Node} {fs' : Fs} (hsrc : fs.lookup src = some n)
    (h : fs.rename src dst = some fs') : fs'.lookup dst = some n := by
  unfold rename at h
  rw [hsrc] at h
  split at h
  · cases h
  · rename_i hmoved _
    cases hmoved
    cases h
    exact lookup_insert_self _ _
  · rename_i hnone
    cases hnone

-- A rename that is not onto a directory moves what is there, and nothing else.
theorem rename_ok {src dst : Path} {n : Node} (hsrc : fs.lookup src = some n)
    (hdst : fs.lookup dst ≠ some .dir) :
    ∃ fs', fs.rename src dst = some fs' ∧ fs'.lookup dst = some n ∧
      (src ≠ dst → fs'.lookup src = none) ∧
      ∀ q, q ≠ src → q ≠ dst → fs'.lookup q = fs.lookup q := by
  refine ⟨(fs.remove src).insert dst n, by simp only [rename, hsrc], lookup_insert_self _ _, ?_, ?_⟩
  · intro hne
    rw [lookup_insert_ne _ hne, lookup_remove, if_pos rfl]
  · intro q hq hq'
    rw [lookup_insert_ne _ hq', lookup_remove, if_neg hq]

theorem lookup_rename_ne {src dst q : Path} {fs' : Fs} (h : fs.rename src dst = some fs')
    (hsrc : q ≠ src) (hdst : q ≠ dst) : fs'.lookup q = fs.lookup q := by
  unfold rename at h
  split at h
  · cases h
  · cases h
    rw [lookup_insert_ne _ hdst, lookup_remove, if_neg hsrc]
  · cases h

-- The files of a directory are inside it.
theorem prefix_of_mem_filesIn {root p : Path} (h : p ∈ fs.filesIn root) : root <+: p := by
  obtain ⟨⟨q, node⟩, -, hq⟩ := List.mem_filterMap.mp h
  cases node with
  | dir => cases hq
  | file content readonly =>
      obtain ⟨⟨hroot, -⟩, hpath⟩ := Option.ite_none_right_eq_some.mp hq
      obtain rfl := Option.some.inj hpath
      exact hroot ▸ List.dropLast_prefix q

theorem mem_ancestors {p q : Path} : q ∈ ancestors p ↔ q <+: p ∧ q ≠ [] := by
  simp [ancestors, List.mem_inits]

theorem lookup_createDirAll_ne {ps : List Path} {fs fs' : Fs} (h : createDirAll ps fs = some fs')
    {q : Path} (hq : q ∉ ps) : fs'.lookup q = fs.lookup q := by
  induction ps generalizing fs with
  | nil =>
      cases h
      rfl
  | cons p rest ih =>
      rw [List.mem_cons, not_or] at hq
      unfold createDirAll at h
      split at h
      · rw [ih h hq.2, lookup_insert_ne _ hq.1]
      · exact ih h hq.2
      · cases h

-- A file does not stand on the way to a directory that was made.
theorem not_mem_of_createDirAll {ps : List Path} {fs fs' : Fs} (h : createDirAll ps fs = some fs')
    {p : Path} {content : Bytes} {readonly : Bool} (hfile : fs.lookup p = some (.file content readonly)) :
    p ∉ ps := by
  induction ps generalizing fs with
  | nil => exact List.not_mem_nil
  | cons q rest ih =>
      have hne : p ≠ q := by
        rintro rfl
        simp only [createDirAll, hfile] at h
        cases h
      unfold createDirAll at h
      split at h
      · have hrest := ih h ((lookup_insert_ne _ hne).trans hfile)
        simp [hne, hrest]
      · have hrest := ih h hfile
        simp [hne, hrest]
      · cases h

theorem createDirAll_some (ps : List Path) (fs : Fs)
    (h : ∀ p ∈ ps, fs.lookup p = none ∨ fs.lookup p = some .dir) :
    ∃ fs', createDirAll ps fs = some fs' ∧
      ∀ q, fs'.lookup q = if q ∈ ps then some .dir else fs.lookup q := by
  induction ps generalizing fs with
  | nil => exact ⟨fs, rfl, by simp⟩
  | cons p rest ih =>
      rcases h p List.mem_cons_self with hp | hp
      · have hlookup : ∀ q, (fs.insert p .dir).lookup q =
            if q = p then some .dir else fs.lookup q := by
          intro q
          by_cases hq : q = p
          · simp [hq]
          · rw [lookup_insert_ne _ hq, if_neg hq]
        obtain ⟨fs', hgo, hspec⟩ := ih (fs.insert p .dir) (by
          intro q hq
          rw [hlookup]
          split_ifs
          · exact .inr rfl
          · exact h q (List.mem_cons_of_mem _ hq))
        refine ⟨fs', by simp [createDirAll, hp, hgo], ?_⟩
        intro q
        rw [hspec, hlookup]
        by_cases hq : q = p <;> simp [hq]
      · obtain ⟨fs', hgo, hspec⟩ := ih fs fun q hq => h q (List.mem_cons_of_mem _ hq)
        refine ⟨fs', by simp [createDirAll, hp, hgo], ?_⟩
        intro q
        rw [hspec]
        by_cases hq : q = p <;> simp [hq, hp]

end Fs

end Zbacs.Lib
