import Mathlib.Data.List.DropRight
import Zbacs.Session.Workspace

namespace Zbacs.Session

open Zbacs.Lib

-- Where the path of a name joined to a directory leads on Windows.
inductive WindowsPlace where
  | elsewhere
  | device
  | stream
  | directory
  | child (entry : String)
deriving DecidableEq, Repr

-- `C:notes` is relative to another drive, and takes the place of the directory it is joined to.
def drivePrefixed : List Char → Bool
  | letter :: ':' :: _ => letter.isAlpha
  | _ => false

-- Windows drops the dots and spaces a path ends with.
def trimmed (name : String) : List Char := name.toList.rdropWhile fun c => c = '.' ∨ c = ' '

-- What stands in front of the first colon is the entry, the rest is a stream of it.
def entryPart (name : String) : List Char := (trimmed name).takeWhile (· ≠ ':')

def streamPart (name : String) : List Char := (trimmed name).dropWhile (· ≠ ':')

-- The unnamed stream is the entry itself.
def unnamedStream (stream : List Char) : Bool :=
  stream = [] ∨ stream.map Char.toUpper = "::$DATA".toList

-- `reserved` are the names this Windows takes for devices in every directory.
def windowsPlace (reserved : String → Bool) (name : String) : WindowsPlace :=
  if drivePrefixed name.toList then .elsewhere
  else if reserved name then .device
  else if !unnamedStream (streamPart name) then .stream
  else if entryPart name = [] ∨ entryPart name = ['.'] then .directory
  else .child (String.ofList (entryPart name))

-- What `Workspace::file` lets through.
structure Allowed (name : String) : Prop where
  nonempty : name ≠ ""
  noSlash : '/' ∉ name.toList
  noBackslash : '\\' ∉ name.toList
  noParent : ¬['.', '.'] <+: name.toList

-- A name of an entry, on Windows too.
structure Plain (reserved : String → Bool) (name : String) : Prop where
  noDrive : drivePrefixed name.toList = false
  noDevice : reserved name = false
  noStream : unnamedStream (streamPart name) = true
  entry : entryPart name ≠ [] ∧ entryPart name ≠ ['.']

instance (name : String) : Decidable (Allowed name) :=
  decidable_of_iff (name ≠ "" ∧ '/' ∉ name.toList ∧ '\\' ∉ name.toList ∧ ¬['.', '.'] <+: name.toList)
    ⟨fun ⟨h₁, h₂, h₃, h₄⟩ => ⟨h₁, h₂, h₃, h₄⟩, fun ⟨h₁, h₂, h₃, h₄⟩ => ⟨h₁, h₂, h₃, h₄⟩⟩

instance (reserved : String → Bool) (name : String) : Decidable (Plain reserved name) :=
  decidable_of_iff (drivePrefixed name.toList = false ∧ reserved name = false ∧
    unnamedStream (streamPart name) = true ∧ entryPart name ≠ [] ∧ entryPart name ≠ ['.'])
    ⟨fun ⟨h₁, h₂, h₃, h₄⟩ => ⟨h₁, h₂, h₃, h₄⟩, fun ⟨h₁, h₂, h₃, h₄⟩ => ⟨h₁, h₂, h₃, h₄⟩⟩

section

variable {w : Workspace} {name : String} {p : Path} {reserved : String → Bool}

theorem allowed_iff : Allowed name ↔ ¬(name = "" ∨ name.toList.any (fun c => c = '/' ∨ c = '\\') ∨
    name.toList.take 2 = ['.', '.']) := by
  have hslash : name.toList.any (fun c => c = '/' ∨ c = '\\') = true ↔
      '/' ∈ name.toList ∨ '\\' ∈ name.toList := by
    rw [List.any_eq_true]
    simp only [decide_eq_true_eq, and_or_left, exists_or, exists_eq_right]
  have hparent : ['.', '.'] <+: name.toList ↔ name.toList.take 2 = ['.', '.'] := by
    rw [List.prefix_iff_eq_take]
    exact eq_comm
  rw [hslash, ← hparent, not_or, not_or, not_or]
  exact ⟨fun ⟨h₁, h₂, h₃, h₄⟩ => ⟨h₁, ⟨h₂, h₃⟩, h₄⟩, fun ⟨h₁, ⟨h₂, h₃⟩, h₄⟩ => ⟨h₁, h₂, h₃, h₄⟩⟩

theorem Workspace.file_eq_ok_iff : w.file name = .ok p ↔ Allowed name ∧ p = w.root.join name := by
  rw [allowed_iff, Workspace.file]
  split
  · rename_i hcheck
    exact iff_of_false (by rintro ⟨⟩) fun h => h.1 hcheck
  · rename_i hcheck
    exact ⟨fun h => ⟨hcheck, (Except.ok.inj h).symm⟩, fun h => congrArg Except.ok h.2.symm⟩

-- On the other systems only `.` is not an entry of its own.
theorem child_iff : (∃ entry, w.root.join name = w.root ++ [entry]) ↔ name ≠ "." := by
  unfold Path.join
  split
  · rename_i hdot
    refine iff_of_false ?_ (fun hne => hne hdot)
    rintro ⟨entry, heq⟩
    have hlen := congrArg List.length heq
    rw [List.length_append, List.length_singleton] at hlen
    omega
  · rename_i hdot
    exact iff_of_true ⟨name, rfl⟩ hdot

theorem windowsPlace_iff : (∃ entry, windowsPlace reserved name = .child entry) ↔
    Plain reserved name := by
  constructor
  · rintro ⟨entry, h⟩
    unfold windowsPlace at h
    split_ifs at h with hdrive hdevice hstream hentry
    rw [not_or] at hentry
    exact ⟨Bool.eq_false_iff.mpr hdrive, Bool.eq_false_iff.mpr hdevice, by simpa using hstream, hentry⟩
  · intro h
    refine ⟨String.ofList (entryPart name), ?_⟩
    unfold windowsPlace
    rw [h.noDrive, h.noDevice, h.noStream, if_neg (by decide), if_neg (by decide), if_neg (by decide),
      if_neg (not_or.mpr h.entry)]

-- The directory itself is no plain name.
theorem Plain.ne_dot (h : Plain reserved name) : name ≠ "." := by
  rintro rfl
  exact h.entry.1 (by decide)

end

end Zbacs.Session
