import Zbacs.Agent.Sealing
import Zbacs.Lib.Trace
import Zbacs.Relay.Routes

namespace Zbacs.Agent

open Zbacs.Lib Zbacs.Core Zbacs.Proto Zbacs.Agent.Setup

-- One machine of an owner: the profile on its disk, what was locked on it, and the Agent that
-- runs on it, from one start to the next.

-- A container written here, with the account the profile named then.
structure Locked where
  header : Header
  account : Option (FixedBytes 20)
deriving DecidableEq

-- The loop that reads the owner's inbox: the id it asks for, and the account the profile named
-- when it started.
structure InboxWatcher where
  owner : Bytes
  account : Option (FixedBytes 20)
deriving DecidableEq

structure OwnerDevice where
  profile : Option DeviceProfile
  locked : List Locked
  identity : Option Prepared
  watching : Option InboxWatcher
deriving DecidableEq

inductive DeviceProblem where
  | cancelled
  | unsupported
  | failed
  | notSetUp
  | relayUnreachable
  | seal (problem : SealProblem)
deriving DecidableEq, Repr

-- `error_id`
def setupProblem : SetupError → DeviceProblem
  | .cancelled => .cancelled
  | .unsupported _ | .confirmationUnavailable => .unsupported
  | .hardware _ | .malformed _ | .encode _ => .failed

-- A command, or the link learning the owner's address, or the Agent starting anew, with what it
-- meets.
inductive DeviceAction (L : Libraries) where
  | completeSetup (style : ApprovalStyle) (env : SetupEnv)
  | ensureWatching (keys : Except SetupError Unit) (client : Except ClientError Unit)
  | sealFile (keys : Except SetupError (OwnerKeys L.toPrimitives)) (request : SealRequest) (run : SealRun)
      (fs : Fs)
  | adoptOwner (owner : FixedBytes 20) (env : SetupEnv)
  | restart (env : SetupEnv)

namespace OwnerDevice

-- Before the first run.
def start : OwnerDevice := ⟨none, [], none, none⟩

variable {L : Libraries} (d : OwnerDevice)

-- `client_for`: the relay client and the id, from the profile in memory.
def clientFor (keys : Except SetupError Unit) (client : Except ClientError Unit) :
    Except DeviceProblem InboxWatcher :=
  match d.identity with
  | none => .error .notSetUp
  | some prepared =>
    if d.profile.isNone then .error .notSetUp
    else match keys, client with
      | .error _, _ => .error .notSetUp
      | .ok _, .error _ => .error .relayUnreachable
      | .ok _, .ok _ => .ok ⟨ownerAccount prepared.profile, prepared.profile.account⟩

-- Who locks: the profile in memory, with the keys from the store.
def sealer (keys : Except SetupError (OwnerKeys L.toPrimitives)) :
    Except DeviceProblem (Prepared × OwnerKeys L.toPrimitives) :=
  match d.identity with
  | none => .error .notSetUp
  | some prepared =>
    if d.profile.isNone then .error .notSetUp
    else match keys with
      | .error _ => .error .notSetUp
      | .ok owner => .ok (prepared, owner)

-- The container a call of `seal_file` writes, if it comes to that.
def written (keys : Except SetupError (OwnerKeys L.toPrimitives)) (request : SealRequest) (run : SealRun)
    (fs : Fs) : Option Locked :=
  match d.sealer keys with
  | .error _ => none
  | .ok (prepared, owner) =>
    match (writeLocked L.toPrimitives owner prepared.profile request run fs).1 with
    | .error _ => none
    | .ok header => some ⟨header, prepared.profile.account⟩

def sealFile (keys : Except SetupError (OwnerKeys L.toPrimitives)) (request : SealRequest) (run : SealRun)
    (fs : Fs) : Except DeviceProblem SealResult :=
  match d.sealer keys with
  | .error e => .error e
  | .ok (prepared, owner) =>
    (sealNow L.toPrimitives owner prepared.profile request run fs).1.mapError .seal

-- The address goes into the profile, and into the identity in memory.
def adoptOwner (owner : FixedBytes 20) (env : SetupEnv) : OwnerDevice :=
  match adoptAccount env d.profile owner with
  | (.error _, disk) => { d with profile := disk }
  | (.ok pending, disk) => { d with
      profile := disk
      identity := d.identity.map fun prepared =>
        { prepared with
          profile := { prepared.profile with account := some owner }
          pending := pending } }

def step (d : OwnerDevice) : DeviceAction L → Except DeviceProblem Unit × OwnerDevice
  | .completeSetup style env => match complete env d.profile style with
    | (.error e, disk) => (.error (setupProblem e), { d with profile := disk })
    | (.ok prepared, disk) => (.ok (), { d with profile := disk, identity := some prepared })
  | .ensureWatching keys client => match d.watching with
    -- the flag is up already
    | some _ => (.ok (), d)
    | none => match d.clientFor keys client with
      | .error e => (.error e, d)
      | .ok watcher => (.ok (), { d with watching := some watcher })
  | .sealFile keys request run fs =>
      ((d.sealFile keys request run fs).map fun _ => (),
        { d with locked := d.locked ++ (d.written keys request run fs).toList })
  | .adoptOwner owner env => (.ok (), d.adoptOwner owner env)
  -- everything in memory is gone; `restore` resumes the setup
  | .restart env => (.ok (), ⟨d.profile, d.locked, (resume env d.profile).toOption.join, none⟩)

end OwnerDevice

end Zbacs.Agent
