import Zbacs.Lib.Fs

namespace Zbacs.Session

open Zbacs.Lib

inductive SessionError where
  | badSessionId
  | badFileName
  | io
deriving DecidableEq, Repr

-- One session's directory.
structure Workspace where
  root : Path
deriving DecidableEq

-- Which of the system calls of `create` fail.
structure CreateFaults where
  createDir : Bool
  restrict : Bool
  exclude : Bool

-- How far the deletion of one file gets: `zeroed` files were overwritten but are
-- still there.
inductive Deletion where
  | removed
  | zeroed
  | untouched
deriving DecidableEq

structure WipeFaults where
  delete : Path → Deletion
  removeDir : Bool

def CreateFaults.none : CreateFaults := ⟨false, false, false⟩

def WipeFaults.none : WipeFaults := ⟨fun _ => .removed, false⟩

namespace Workspace

def create (base : Path) (sessionId : String) (faults : CreateFaults) (fs : Fs) :
    Except SessionError Workspace × Fs :=
  if sessionId = "" ∨ sessionId.toList.any (fun c => c = '/' ∨ c = '\\' ∨ c = '.') then
    (.error .badSessionId, fs)
  else
    let root := base.join sessionId
    if faults.createDir then (.error .io, fs)
    else match Fs.createDirAll (Fs.ancestors root) fs with
      | none => (.error .io, fs)
      | some fs =>
        if faults.restrict ∨ faults.exclude then (.error .io, fs) else (.ok ⟨root⟩, fs)

-- Full path for a file inside the workspace.
def file (w : Workspace) (name : String) : Except SessionError Path :=
  if name = "" ∨ name.toList.any (fun c => c = '/' ∨ c = '\\') ∨ name.toList.take 2 = ['.', '.'] then
    .error .badFileName
  else .ok (w.root.join name)

-- `set_permissions` on a file that is there.
def setReadOnly (w : Workspace) (name : String) (readonly : Bool) (fs : Fs) :
    Except SessionError Unit × Fs :=
  match w.file name with
  | .error e => (.error e, fs)
  | .ok path => match fs.lookup path with
    | none => (.error .io, fs)
    | some .dir => (.ok (), fs)
    | some (.file content _) => (.ok (), fs.insert path (.file content readonly))

def markReadOnly (w : Workspace) (name : String) (fs : Fs) : Except SessionError Unit × Fs :=
  w.setReadOnly name true fs

def clearReadOnly (w : Workspace) (name : String) (fs : Fs) : Except SessionError Unit × Fs :=
  w.setReadOnly name false fs

-- Overwrite a file's bytes with zeros, then remove it.
def secureDelete (outcome : Deletion) (path : Path) (fs : Fs) : Except SessionError Unit × Fs :=
  match outcome, fs.readFile path with
  | _, none => (.error .io, fs)
  | .removed, some _ => (.ok (), fs.remove path)
  | .zeroed, some content => (.error .io, fs.insert path (.file (List.replicate content.length 0) false))
  | .untouched, some _ => (.error .io, fs)

def deleteFiles (faults : WipeFaults) : List Path → Option SessionError → Fs →
    Option SessionError × Fs
  | [], firstError, fs => (firstError, fs)
  | path :: rest, firstError, fs => match secureDelete (faults.delete path) path fs with
    | (.error e, fs) => deleteFiles faults rest (firstError.or (some e)) fs
    | (.ok (), fs) => deleteFiles faults rest firstError fs

-- Overwrite every file with zeros, then delete the directory. Errors are
-- collected rather than returned early.
def wipe (w : Workspace) (faults : WipeFaults) (fs : Fs) : Except SessionError Unit × Fs :=
  let (firstError, fs) := deleteFiles faults (fs.filesIn w.root) none fs
  let (firstError, fs) :=
    if faults.removeDir then (firstError.or (some .io), fs) else (firstError, fs.removeTree w.root)
  match firstError with
  | some e => (.error e, fs)
  | none => (.ok (), fs)

variable {w : Workspace} {faults : WipeFaults}

-- A file of the workspace is inside it.
theorem file_eq_ok {name : String} {p : Path} (h : w.file name = .ok p) : w.root <+: p := by
  unfold file at h
  split at h
  · cases h
  · cases h
    unfold Path.join
    split
    · exact List.prefix_refl _
    · exact List.prefix_append _ _

theorem lookup_setReadOnly {fs : Fs} {name : String} (readonly : Bool) {q : Path}
    (hq : ¬w.root <+: q) : (w.setReadOnly name readonly fs).2.lookup q = fs.lookup q := by
  unfold setReadOnly
  cases hfile : w.file name with
  | error e => rfl
  | ok path =>
      have hne : q ≠ path := by
        rintro rfl
        exact hq (file_eq_ok hfile)
      dsimp only
      cases fs.lookup path with
      | none => rfl
      | some node =>
          cases node with
          | dir => rfl
          | file content => exact Fs.lookup_insert_ne _ hne

theorem lookup_secureDelete {fs : Fs} (outcome : Deletion) {path q : Path} (hq : q ≠ path) :
    (secureDelete outcome path fs).2.lookup q = fs.lookup q := by
  unfold secureDelete
  split
  · rfl
  · rw [Fs.lookup_remove, if_neg hq]
  · exact Fs.lookup_insert_ne _ hq
  · rfl

-- Once the directory could be removed, nothing of the workspace is left.
theorem lookup_wipe (hremove : faults.removeDir = false) (fs : Fs) {p : Path} (hp : w.root <+: p) :
    (w.wipe faults fs).2.lookup p = none := by
  unfold wipe
  rcases deleteFiles faults (fs.filesIn w.root) none fs with ⟨firstError, fs'⟩
  simp only [hremove, Bool.false_eq_true, if_false]
  cases firstError <;> simp [Fs.lookup_removeTree, hp]

theorem lookup_deleteFiles {files : List Path} {firstError : Option SessionError} {fs : Fs} {q : Path}
    (hq : q ∉ files) : (deleteFiles faults files firstError fs).2.lookup q = fs.lookup q := by
  induction files generalizing firstError fs with
  | nil => rfl
  | cons file files ih =>
      rw [List.mem_cons, not_or] at hq
      have hdelete := @lookup_secureDelete fs (faults.delete file) file q hq.1
      rw [deleteFiles]
      rcases hrun : secureDelete (faults.delete file) file fs with ⟨e | ok, fs'⟩
      · rw [hrun] at hdelete
        exact (ih hq.2).trans hdelete
      · rw [hrun] at hdelete
        exact (ih hq.2).trans hdelete

-- However a wipe goes, it stays inside the workspace.
theorem lookup_wipe_outside (fs : Fs) {q : Path} (hq : ¬w.root <+: q) :
    (w.wipe faults fs).2.lookup q = fs.lookup q := by
  have hfiles := @lookup_deleteFiles faults (fs.filesIn w.root) none fs q
    fun hmem => hq (Fs.prefix_of_mem_filesIn hmem)
  unfold wipe
  rcases hrun : deleteFiles faults (fs.filesIn w.root) none fs with ⟨firstError, fs'⟩
  rw [hrun] at hfiles
  cases faults.removeDir with
  | true => cases firstError <;> exact hfiles
  | false =>
      have hremoved : (fs'.removeTree w.root).lookup q = fs.lookup q := by
        rw [Fs.lookup_removeTree, if_neg hq]
        exact hfiles
      cases firstError <;> exact hremoved

-- An id that names a directory of its own.
def GoodId (sessionId : String) : Prop :=
  sessionId ≠ "" ∧ sessionId.toList.any (fun c => c = '/' ∨ c = '\\' ∨ c = '.') = false

-- Room for a fresh workspace: the way there is free, and nothing is there yet.
structure Room (base : Path) (sessionId : String) (fs : Fs) : Prop where
  dirs : ∀ p ∈ Fs.ancestors base, fs.lookup p = none ∨ fs.lookup p = some .dir
  fresh : ∀ p, base ++ [sessionId] <+: p → fs.lookup p = none

theorem GoodId.join {sessionId : String} (h : GoodId sessionId) (base : Path) :
    Path.join base sessionId = base ++ [sessionId] := by
  have hne : sessionId ≠ "." := by
    rintro rfl
    exact absurd h.2 (by decide)
  simp [Path.join, hne]

-- A workspace that was made: its id is good, and the way to it is all directories now.
theorem create_cases {base : Path} {sessionId : String} {faults : CreateFaults} {fs fs' : Fs}
    {w : Workspace} (h : create base sessionId faults fs = (.ok w, fs')) :
    GoodId sessionId ∧ w.root = base ++ [sessionId] ∧
      Fs.createDirAll (Fs.ancestors (base ++ [sessionId])) fs = some fs' := by
  unfold create at h
  by_cases hcheck : sessionId = "" ∨
      sessionId.toList.any (fun c => c = '/' ∨ c = '\\' ∨ c = '.') = true
  · rw [if_pos hcheck] at h
    cases h
  · rw [if_neg hcheck] at h
    rw [not_or, Bool.not_eq_true] at hcheck
    have hid : GoodId sessionId := hcheck
    simp only [hid.join] at h
    split_ifs at h
    · cases h
    · split at h
      · cases h
      · cases h
    · split at h
      · cases h
      · rename_i hdirs
        cases h
        exact ⟨hid, rfl, hdirs⟩

-- Where a workspace that was made is.
theorem create_eq_ok {base : Path} {sessionId : String} {faults : CreateFaults} {fs fs' : Fs}
    {w : Workspace} (h : create base sessionId faults fs = (.ok w, fs')) :
    w.root = base ++ [sessionId] := (create_cases h).2.1

theorem not_mem_ancestors_of_create {base : Path} {sessionId : String} {faults : CreateFaults}
    {fs fs' : Fs} {w : Workspace} (h : create base sessionId faults fs = (.ok w, fs')) {p : Path}
    {content : Bytes} {readonly : Bool} (hfile : fs.lookup p = some (.file content readonly)) :
    p ∉ Fs.ancestors (base.join sessionId) := by
  obtain ⟨hid, -, hdirs⟩ := create_cases h
  rw [hid.join]
  exact Fs.not_mem_of_createDirAll hdirs hfile

-- However that goes, nothing else changes than the way there.
theorem lookup_create {base : Path} {sessionId : String} (hid : GoodId sessionId)
    (faults : CreateFaults) (fs : Fs) {q : Path} (hq : q ∉ Fs.ancestors (base ++ [sessionId])) :
    (create base sessionId faults fs).2.lookup q = fs.lookup q := by
  unfold create
  have hcheck : ¬(sessionId = "" ∨ sessionId.toList.any (fun c => c = '/' ∨ c = '\\' ∨ c = '.')) := by
    rw [hid.2]
    simp [hid.1]
  rw [if_neg hcheck]
  simp only [hid.join]
  split
  · rfl
  · cases hdirs : Fs.createDirAll (Fs.ancestors (base ++ [sessionId])) fs with
    | none => rfl
    | some fs' =>
        dsimp only
        split
        · exact Fs.lookup_createDirAll_ne hdirs hq
        · exact Fs.lookup_createDirAll_ne hdirs hq

-- A workspace with room is made; only directories on the way to it are new.
theorem create_ok {base : Path} {sessionId : String} {fs : Fs} (hid : GoodId sessionId)
    (hroom : Room base sessionId fs) :
    ∃ fs', create base sessionId .none fs = (.ok ⟨base ++ [sessionId]⟩, fs') ∧
      ∀ q, fs'.lookup q =
        if q ∈ Fs.ancestors (base ++ [sessionId]) then some .dir else fs.lookup q := by
  obtain ⟨fs', hcreate, hspec⟩ := Fs.createDirAll_some (Fs.ancestors (base ++ [sessionId])) fs (by
    intro p hp
    obtain ⟨hpath, hne⟩ := Fs.mem_ancestors.mp hp
    rcases List.prefix_concat_iff.mp hpath with rfl | hbase
    · exact .inl (hroom.fresh _ (List.prefix_refl _))
    · exact hroom.dirs p (Fs.mem_ancestors.mpr ⟨hbase, hne⟩))
  refine ⟨fs', ?_, hspec⟩
  have hcheck : ¬(sessionId = "" ∨ sessionId.toList.any (fun c => c = '/' ∨ c = '\\' ∨ c = '.')) := by
    rw [hid.2]
    simp [hid.1]
  rw [create, if_neg hcheck]
  simp [CreateFaults.none, hid.join, hcreate]

end Workspace

end Zbacs.Session
