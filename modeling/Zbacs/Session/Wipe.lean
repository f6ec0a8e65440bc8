import Zbacs.Lib.Disk
import Zbacs.Session.Workspace

namespace Zbacs.Session.OnDisk

open Zbacs.Lib

-- The call at which the deletion of one file fails. A write fails after some bytes.
inductive Stop where
  | metadata
  | permissions
  | openFile
  | write (done : Nat)
  | sync
  | remove
deriving DecidableEq, Repr

-- What the system says of the directory: it cannot be read at all, or one entry of it cannot.
structure Listing where
  readDir : Bool
  skipped : Path → Bool

-- Which later calls fail: those on one file, opening a directory to empty it, and removing a name.
structure Faults where
  stop : Path → Option Stop
  closed : Path → Bool
  blocked : Path → Bool

def Listing.calm : Listing := ⟨false, fun _ => false⟩

def Faults.calm : Faults := ⟨fun _ => none, fun _ => false, fun _ => false⟩

def zerosLen : Nat := 64 * 1024

-- Blocks of zeros until nothing is left. The device takes `room` bytes before it fails.
def zeroLoop : Nat → Nat → Nat → Option Nat → Inode → Bool × Inode
  | 0, left, _, _, x => (left = 0, x)
  | rounds + 1, left, pos, room, x =>
    if left = 0 then (true, x)
    else
      let n := min left zerosLen
      if room.any (· < n) then (false, x.write pos (List.replicate (room.getD 0) 0))
      else zeroLoop rounds (left - n) (pos + n) (room.map (· - n)) (x.write pos (List.replicate n 0))

def Stop.room : Option Stop → Option Nat
  | some (.write done) => some done
  | _ => none

-- Overwrite a file's bytes with zeros, flush to the device, then remove it. All but the removal
-- follow the links. A path that leads to no file is never deleted.
def secureDelete (stop : Option Stop) (path : Path) (d : Disk) : Except SessionError Unit × Disk :=
  match d.fileOf path with
  | none => (.error .io, d)
  | some i =>
    let x := d.inodes i
    if stop = some .metadata then (.error .io, d)
    else if x.readonly ∧ stop = some .permissions then (.error .io, d)
    else
      let x := { x with readonly := false }
      if stop = some .openFile then (.error .io, d.setInode i x)
      else
        let len := x.content.length
        let (done, x) := zeroLoop len len 0 (Stop.room stop) x
        let d := d.setInode i x
        if !done ∨ stop = some .sync ∨ stop = some .remove then (.error .io, d)
        else (.ok (), d.unlink path)

-- Every file of the listing. The first error is kept, and the rest is deleted all the same.
def deleteEach (skipped : Path → Bool) (stop : Path → Option Stop) :
    List Path → Option SessionError → Disk → Option SessionError × Disk
  | [], firstError, d => (firstError, d)
  | path :: rest, firstError, d =>
    if skipped path ∨ d.fileOf path = none then deleteEach skipped stop rest firstError d
    else match secureDelete (stop path) path d with
      | (.error e, d) => deleteEach skipped stop rest (firstError.or (some e)) d
      | (.ok (), d) => deleteEach skipped stop rest firstError d

-- One after the other, up to the first that fails.
def removeEach (step : Path → Disk → Bool × Disk) : List Path → Disk → Bool × Disk
  | [], d => (true, d)
  | path :: rest, d => match step path d with
    | (false, d) => (false, d)
    | (true, d) => removeEach step rest d

inductive RemoveError where
  | notFound
  | other
deriving DecidableEq, Repr

section

variable (w : Workspace) (listing : Listing) (faults : Faults)

def removeName (path : Path) (d : Disk) : Bool × Disk :=
  if faults.blocked path then (false, d) else (true, d.unlink path)

-- Links are removed, not followed.
def removeEntry (below : Path → Disk → Bool × Disk) (path : Path) (d : Disk) : Bool × Disk :=
  match d.entry path with
  | none => (true, d)
  | some .dir => below path d
  | some _ => removeName faults path d

-- What is below a directory, then the directory.
def removeBelow : Nat → Path → Disk → Bool × Disk
  | 0, _, d => (false, d)
  | depth + 1, dir, d =>
    if faults.closed dir then (false, d)
    else match removeEach (removeEntry faults (removeBelow depth)) (d.children dir) d with
      | (false, d) => (false, d)
      | (true, d) => removeName faults dir d

def removeDirAll (path : Path) (d : Disk) : Except RemoveError Unit × Disk :=
  match d.entry path with
  | none => (.error .notFound, d)
  | some (.file _) => (.error .other, d)
  | some (.symlink _) => match removeName faults path d with
    | (false, d) => (.error .other, d)
    | (true, d) => (.ok (), d)
  | some .dir => match removeBelow faults d.depth path d with
    | (false, d) => (.error .other, d)
    | (true, d) => (.ok (), d)

-- The files `read_dir` shows, as far as it does.
def listed (d : Disk) : List Path :=
  if listing.readDir then [] else (d.readDir w.root).getD []

def deleteFiles (d : Disk) : Option SessionError × Disk :=
  deleteEach listing.skipped faults.stop (listed w listing d) none d

-- Overwrite every file with zeros, then delete the directory.
def wipe (d : Disk) : Except SessionError Unit × Disk :=
  let (firstError, d) := deleteFiles w listing faults d
  let (firstError, d) := match removeDirAll faults w.root d with
    | (.error .other, d) => (firstError.or (some .io), d)
    | (.error .notFound, d) => (firstError, d)
    | (.ok (), d) => (firstError, d)
  match firstError with
  | some e => (.error e, d)
  | none => (.ok (), d)

end

end Zbacs.Session.OnDisk
