import Zbacs.Agent.Setup
import Zbacs.Core.Path

namespace Zbacs.Agent

open Zbacs.Lib Zbacs.Core Zbacs.Agent.Setup

-- Locking a file.

inductive SealProblem where
  | isFolder
  | alreadyLocked
  | empty
  | outputExists
  | missing
  | unreadable
  | failed
deriving DecidableEq, Repr

def sealedExt : String := "zbacs"

inductive PermissionArg where
  | readOnly
  | edit
deriving DecidableEq, Repr

inductive TtlArg where
  | hour
  | day
  | week
deriving DecidableEq, Repr

inductive OpensArg where
  | once
  | thrice
  | unlimited
deriving DecidableEq, Repr

-- What the person chose on the lock screen.
structure SealRequest where
  path : Path
  permission : PermissionArg
  ttl : TtlArg
  opens : OpensArg
deriving DecidableEq

def SealRequest.policy (request : SealRequest) : Policy :=
  { default := match request.permission with
      | .readOnly => .readOnly
      | .edit => .edit
    ttl := match request.ttl with
      | .hour => 3600
      | .day => 86400
      | .week => 604800
    max := match request.opens with
      | .once => 1
      | .thrice => 3
      | .unlimited => 0
    pin := true
    strict := false }

-- `Path::file_name`, empty where there is none.
def fileName (p : Path) : String := p.getLast?.getD ""

-- `Path::extension`: what follows the last dot; a dot in front is part of the name.
def extension (p : Path) : Option String :=
  let chars := (fileName p).toList
  let tail := (chars.reverse.takeWhile (· ≠ '.')).length
  if tail = chars.length ∨ tail + 1 = chars.length then none
  else some (String.ofList (chars.drop (chars.length - tail)))

-- `report.docx` becomes `report.docx.zbacs`.
def sealedPath (source : Path) : Path := source.dropLast ++ [fileName source ++ "." ++ sealedExt]

-- A file the person dropped or picked.
structure Candidate where
  path : Path
  name : String
  size : Option Nat
  problem : Option SealProblem
deriving DecidableEq

def Candidate.ok (c : Candidate) : Bool := c.problem.isNone

-- `readable` is false where the system refuses to say what is there.
def examine (readable : Bool) (path : Path) (fs : Fs) : Candidate :=
  if !readable then ⟨path, fileName path, none, some .unreadable⟩
  else match fs.lookup path with
    | none => ⟨path, fileName path, none, some .missing⟩
    | some .dir => ⟨path, fileName path, none, some .isFolder⟩
    | some (.file content _) => ⟨path, fileName path, some content.length,
        if (extension path).any fun e => e.toList.map Char.toLower = sealedExt.toList then
          some .alreadyLocked
        else if content = [] then some .empty
        else if (fs.lookup (sealedPath path)).isSome then some .outputExists
        else none⟩

-- The identifier committed with the file: the owner's account once there is one, the owner's own
-- signing key until then.
def ownerAccount (profile : DeviceProfile) : Bytes :=
  match profile.account with
  | some address => address.bytes
  | none => profile.ownerSigningPub.bytes

inductive SealPending where
  | chainRegistration
deriving DecidableEq, Repr

-- What the person is shown after a file is locked.
structure SealResult where
  output : Path
  outputName : String
  original : Path
  size : Nat
  pending : List SealPending
  fid : String
  headerHash : String
  txHash : Option String
deriving DecidableEq

-- What the system and the random generator do during a seal.
structure SealRun where
  readable : Bool
  rng : SealRandom
  env : SealEnv

def sealOpts (profile : DeviceProfile) (request : SealRequest) : SealOptions :=
  { SealOptions.new (ownerAccount profile) (fileName request.path) with policy := request.policy }

section

variable (P : Primitives) (owner : OwnerKeys P) (profile : DeviceProfile) (request : SealRequest)
  (run : SealRun) (fs : Fs)

-- The container is written.
def writeLocked : Except SealProblem Header × Fs :=
  let checked := examine run.readable request.path fs
  if !checked.ok then (.error (checked.problem.getD .unreadable), fs)
  else match sealToPath P request.path (sealedPath request.path) owner (sealOpts profile request)
      run.rng run.env fs with
    | (.error _, fs) => (.error .failed, fs)
    | (.ok header, fs) => (.ok header, fs)

-- Lock a file, and read back what was just written.
def sealNow : Except SealProblem SealResult × Fs :=
  match writeLocked P owner profile request run fs with
  | (.error e, fs) => (.error e, fs)
  | (.ok _, fs) =>
    let output := sealedPath request.path
    match fs.readFile output with
    | none => (.error .failed, fs)
    | some container => match inspect P (.ofData container run.env.offer) with
      | .error _ => (.error .failed, fs)
      | .ok (header, headerHash) =>
        (.ok { output := output
               outputName := fileName output
               original := request.path
               size := container.length
               pending := [.chainRegistration]
               fid := hexEncode header.body.fid.bytes
               headerHash := hexEncode headerHash.bytes
               txHash := none }, fs)

end

end Zbacs.Agent
