import Zbacs.Agent.Request
import Zbacs.Core.Path
import Zbacs.Session.Workspace

namespace Zbacs.Agent

open Zbacs.Lib Zbacs.Core Zbacs.Proto Zbacs.Session

-- A file opened into a workspace.
structure Materialised where
  workspace : Workspace
  plain : Path
  name : String
  effects : List Effect
deriving DecidableEq

-- The clock, how the container reads, and which system calls of an open fail.
structure OpenEnv where
  now : UInt64
  offer : Nat → Nat
  create : CreateFaults
  createFile : Bool
  sink : Sink
  wipe : WipeFaults
  rename : Bool
  attributes : Bool

def OpenEnv.calm (now : UInt64) : OpenEnv :=
  ⟨now, fun _ => 0, .none, false, .memory, .none, false, false⟩

-- What an open did: its result, the held grant and the disk afterwards, and the
-- plaintext bytes that went into the workspace on the way.
structure OpenStep where
  result : Except Problem Materialised
  held : Held
  fs : Fs
  written : Bytes

section

variable (L : Libraries)

-- The DEK a held grant gives this device; its envelope is bound to the grant id.
def grantKey (held : Held) (device : DeviceKeys L.toPrimitives) :
    Except Problem (AccessGrantTerms × Dek) :=
  match held.terms, held.envelope with
  | some terms, some bytes => match L.envelopeCodec.decode bytes with
    | .error _ => .error .envelope
    | .ok envelope => match envelope.openDek device (terms.structHash L).bytes with
      | .error _ => .error .envelope
      | .ok dek => .ok (terms, dek)
  | _, _ => .error .notGranted

-- Everything an open checks before it asks the state machine: the session, the
-- envelope, and that the file on disk is the version the owner approved.
def unlock (sealed : Path) (held : Held) (device : DeviceKeys L.toPrimitives) (env : OpenEnv)
    (fs : Fs) : Except Problem (Dek × Header × HeaderHash × Reader) :=
  if held.session.state ≠ .granted then .error .notGranted
  else match grantKey L held device with
    | .error e => .error e
    | .ok (terms, dek) => match fs.readFile sealed with
      | none => .error .missing
      | some container => match readHeader L.toPrimitives (.ofData container env.offer) with
        | .error _ => .error .damaged
        | .ok (header, headerHash, rest) =>
          if headerHash ≠ terms.headerHash then .error .version
          else .ok (dek, header, headerHash, rest)

-- Rename the plaintext to its own name and protect it, inside the workspace only.
def settleName (workspace : Workspace) (plain : Path) (fileName : String) (effects : List Effect)
    (env : OpenEnv) (fs : Fs) : Except Problem Materialised × Fs :=
  match workspace.file fileName with
  | .error _ => (.error .workspace, fs)
  | .ok named =>
    if env.rename then (.error .workspace, fs)
    else match fs.rename plain named with
      | none => (.error .workspace, fs)
      | some fs =>
        if .markReadOnly ∈ effects then
          if env.attributes then (.error .workspace, fs)
          else match workspace.markReadOnly fileName fs with
            | (.error _, fs) => (.error .workspace, fs)
            | (.ok (), fs) => (.ok ⟨workspace, named, fileName, effects⟩, fs)
        else (.ok ⟨workspace, named, fileName, effects⟩, fs)

-- Decrypt into a fresh workspace. A failed decryption is wiped again.
def extract (base : Path) (sessionId : String) (effects : List Effect) (env : OpenEnv)
    (header : Header) (headerHash : HeaderHash) (rest : Reader) (dek : Dek) (fs : Fs) :
    Except Problem Materialised × Fs × Bytes :=
  match Workspace.create base sessionId env.create fs with
  | (.error _, fs) => (.error .workspace, fs, [])
  | (.ok workspace, fs) => match workspace.file "opened.bin" with
    | .error _ => (.error .workspace, fs, [])
    | .ok plain =>
      if env.createFile ∨ fs.lookup plain = some .dir then (.error .workspace, fs, [])
      else
        let run := openWithDek L.toPrimitives header headerHash rest env.sink dek
        let fs := fs.insert plain (.file run.written false)
        match run.result with
        | .error _ => (.error .damaged, (workspace.wipe env.wipe fs).2, run.written)
        | .ok opened =>
          let (result, fs) := settleName workspace plain opened.fileName effects env fs
          (result, fs, run.written)

-- Decrypt a granted file into a fresh workspace and move the session to `Open`.
-- The state machine is asked first: it counts the open and may close instead.
def materialise (sealed : Path) (held : Held) (device : DeviceKeys L.toPrimitives) (base : Path)
    (sessionId : String) (env : OpenEnv) (fs : Fs) : OpenStep :=
  match unlock L sealed held device env fs with
  | .error e => ⟨.error e, held, fs, []⟩
  | .ok (dek, header, headerHash, rest) =>
    match held.session.apply .opened env.now with
    | .error _ => ⟨.error .notGranted, held, fs, []⟩
    | .ok (session, effects) =>
      let held := { held with session := session }
      if .wipeWorkspace ∈ effects then ⟨.error .opensExhausted, held, fs, []⟩
      else
        let (result, fs, written) :=
          extract L base sessionId effects env header headerHash rest dek fs
        ⟨result, held, fs, written⟩

-- The viewer went away, or the session was ended from outside: apply what the
-- state machine says and wipe.
def close (mat : Materialised) (held : Held) (event : Event) (now : UInt64) (faults : WipeFaults)
    (fs : Fs) : Except Problem (List Effect) × Held × Fs :=
  match held.session.apply event now with
  | .error _ => (.error .session, held, fs)
  | .ok (session, effects) =>
    let held := { held with session := session }
    if fs.exists? mat.workspace.root then
      let fs := (mat.workspace.clearReadOnly mat.name fs).2
      match mat.workspace.wipe faults fs with
      | (.error _, fs) => (.error .wipe, held, fs)
      | (.ok (), fs) => (.ok effects, held, fs)
    else (.ok effects, held, fs)

-- What a save produced.
structure Saved where
  ver : UInt32
  headerHash : HeaderHash
  notice : VersionMsg
deriving DecidableEq

-- What a save meets: how the seal to the path goes, what the random generator
-- gives, the relay's answer, and the clock.
structure SaveEnv where
  disk : SealEnv
  rng : SealRandom
  relay : Except ClientError Unit
  now : UInt64

-- `sent`: the notices the relay took.
structure SaveStep where
  result : Except Problem Saved
  held : Held
  fs : Fs
  sent : List VersionMsg

-- After the reseal: read the new version back and tell the owner. A sealed header
-- always has the owner's envelope first; without one the program would stop.
def announceVersion (sealed : Path) (held : Held) (grantId : FixedBytes 32) (prevHash : HeaderHash)
    (header : Header) (signer : SigningKeys) (env : SaveEnv) (fs : Fs) : SaveStep :=
  match fs.readFile sealed with
  | none => ⟨.error .missing, held, fs, []⟩
  | some container => match inspect L.toPrimitives (.ofData container env.disk.offer) with
    | .error _ => ⟨.error .damaged, held, fs, []⟩
    | .ok (_, newHash) => match header.body.env with
      | [] => ⟨.error .failed, held, fs, []⟩
      | ownerEnv :: _ => match L.envelopeCodec.encode ownerEnv with
        | .error _ => ⟨.error .failed, held, fs, []⟩
        | .ok ownerEnvelope =>
          let notice : VersionMsg :=
            { fid := header.body.fid
              owner := header.body.own
              prevHeaderHash := prevHash
              headerHash := newHash
              ver := header.body.ver
              grantId := grantId
              ownerEnvelope := ownerEnvelope
              ed25519Pub := signer.verifyingKey L.toPrimitives
              ts := env.now }
          match env.relay with
          | .error _ => ⟨.error .relayUnreachable, held, fs, []⟩
          | .ok () =>
            let session := held.session.applied (.resealed header.body.ver) env.now
            ⟨.ok ⟨header.body.ver, newHash, notice⟩, { held with session := session }, fs, [notice]⟩

-- The viewer saved an `Edit` session: reseal the edited plaintext over the container
-- as the next version and tell the owner.
def save (sealed : Path) (mat : Materialised) (held : Held) (device : DeviceKeys L.toPrimitives)
    (signer : SigningKeys) (env : SaveEnv) (fs : Fs) : SaveStep :=
  if held.session.state ≠ .resealing then ⟨.error .notSaving, held, fs, []⟩
  else match grantKey L held device with
    | .error e => ⟨.error e, held, fs, []⟩
    | .ok (terms, dek) => match fs.readFile sealed with
      | none => ⟨.error .missing, held, fs, []⟩
      | some container => match inspect L.toPrimitives (.ofData container env.disk.offer) with
        | .error _ => ⟨.error .damaged, held, fs, []⟩
        | .ok (prev, prevHash) =>
          if prevHash ≠ terms.headerHash then ⟨.error .version, held, fs, []⟩
          else match resealAsRecipientToPath L.toPrimitives mat.plain sealed dek signer
              prev.body.pol env.rng env.disk fs with
            | (.error .noOwnerKey, fs) => ⟨.error .noOwnerKey, held, fs, []⟩
            | (.error _, fs) => ⟨.error .failed, held, fs, []⟩
            | (.ok header, fs) =>
              announceVersion L sealed held (terms.structHash L) prevHash header signer env fs

end

end Zbacs.Agent
