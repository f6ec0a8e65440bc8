import Zbacs.Core.Header
import Zbacs.Lib.Pieces
import Zbacs.Lib.Result
import Zbacs.Lib.Stream

namespace Zbacs.Core

open Zbacs.Lib

-- Identity carried from the previous container version when resealing.
structure PrevVersion where
  headerHash : HeaderHash
  version : UInt32
  fileId : FileId
  salt : Salt

def PrevVersion.of (header : Header) (headerHash : HeaderHash) : PrevVersion :=
  ⟨headerHash, header.body.ver, header.body.fid, header.body.salt⟩

structure SealOptions where
  policy : Policy
  ownerAccount : Bytes
  fileName : String
  chunkSize : Nat
  extraRecipients : List Bytes
  prev : Option PrevVersion

def SealOptions.new (ownerAccount : Bytes) (fileName : String) : SealOptions :=
  ⟨.defaultPolicy, ownerAccount, fileName, defaultChunk, [], none⟩

-- What one seal draws from the system's random generator; `seeds i` is the
-- randomness of the `i`-th envelope.
structure SealRandom where
  dek : Dek
  np : NoncePrefix
  salt : Salt
  seeds : Nat → Bytes

def nonce (np : NoncePrefix) (index : Nat) : FixedBytes 24 :=
  ⟨np.bytes ++ leBytes 8 index, by simp⟩

def chunkAad (headerHash : HeaderHash) (index : Nat) (isLast : Bool) : Bytes :=
  headerHash.bytes ++ leBytes 8 index ++ [if isLast then 1 else 0]

def nameAad : Bytes := utf8 "name"

-- `u16 LE length || name || zero padding` rounded up to whole pad blocks.
def padName (name : String) : Result Bytes :=
  let bytes := utf8 name
  if bytes.length > maxNameLen then .error (.headerEncode "file name too long")
  else
    let padded := divCeil (2 + bytes.length) namePadBlock * namePadBlock
    let used := leBytes 2 bytes.length ++ bytes
    .ok (used ++ List.replicate (max padded namePadBlock - used.length) 0)

def unpadName (buf : Bytes) : Result String :=
  if buf.length < namePadBlock ∨ buf.length % namePadBlock ≠ 0 ∨
      buf.length > maxNameCtLen - tagLen then .error .nameAuth
  else
    let len := leNat (buf.take 2)
    if len > maxNameLen ∨ 2 + len > buf.length then .error .nameAuth
    else if (buf.drop (2 + len)).any (· ≠ 0) then .error .nameAuth
    else match String.fromUTF8? ⟨((buf.drop 2).take len).toArray⟩ with
      | none => .error .nameAuth
      | some name => .ok name

def chunkCount (plen chunk : Nat) : Nat := if plen = 0 then 1 else divCeil plen chunk

section Seal

variable (P : Primitives)

-- Pass 1 of a seal: everything read so far goes into the plaintext hash, and
-- its length is counted. Each round but the last reads at least one byte, so
-- one round more than there are bytes suffices.
def hashPass (chunk : Nat) : Nat → Reader → Bytes → Nat → Bytes × Nat × Reader
  | 0, r, hashed, plen => (hashed, plen, r)
  | fuel + 1, r, hashed, plen =>
      match r.read chunk with
      | ([], r) => (hashed, plen, r)
      | (got, r) => hashPass chunk fuel r (hashed ++ got) (plen + got.length)

-- The owner's envelope first, then the extra recipients', all with AAD = fid.
def sealEnvelopes (dek : Dek) (fid : FileId) (seeds : Nat → Bytes) :
    Nat → List Bytes → Result (List Envelope)
  | _, [] => .ok []
  | index, pk :: rest => do
      let e ← Envelope.sealDek P pk dek fid.bytes (seeds index)
      let es ← sealEnvelopes dek fid seeds (index + 1) rest
      return e :: es

-- `p.version.checked_add(1)`
def nextVersion : Option PrevVersion → Result (Option HeaderHash × UInt32)
  | none => .ok (none, 1)
  | some p =>
      if p.version.toNat + 1 < 2 ^ 32 then .ok (some p.headerHash, p.version + 1)
      else .error (.headerEncode "version overflow")

-- A reseal keeps the file's identity; version 1 commits to the plaintext.
def fileIdentity (plaintextHash : FixedBytes 32) (salt : Salt) :
    Option PrevVersion → FileId × Salt
  | some p => (p.fileId, p.salt)
  | none => (P.sha256 (plaintextHash.bytes ++ salt.bytes), salt)

def encryptOrFail (dek : Dek) (n : FixedBytes 24) (aad msg : Bytes) : Result Bytes :=
  match P.aead.encrypt dek n aad msg with
  | none => .error .envelopeSeal
  | some ct => .ok ct

-- The signed header of a seal, once pass 1 knows the plaintext and its length.
def sealHeader (plaintext : Bytes) (plen : Nat) (ownerPk : FixedBytes 32) (signer : SigningKeys)
    (opts : SealOptions) (rng : SealRandom) : Result Header := do
  let (fid, salt) := fileIdentity P (P.sha256 plaintext) rng.salt opts.prev
  let padded ← padName opts.fileName
  let nameCt ← encryptOrFail P rng.dek (nonce rng.np nameIndex) nameAad padded
  let env ← sealEnvelopes P rng.dek fid rng.seeds 0 (ownerPk.bytes :: opts.extraRecipients)
  let (prev, ver) ← nextVersion opts.prev
  let body : HeaderBody :=
    { fid, salt, ver, prev
      own := opts.ownerAccount
      opub := some ownerPk
      pol := opts.policy
      cipher := cipherXChaCha20Poly1305Chunked
      chunk := UInt32.ofNat opts.chunkSize
      plen := UInt64.ofNat plen
      np := rng.np
      name := nameCt
      env }
  body.sign P signer

-- `write_all` through the buffered writer: the output so far grows, or the
-- sink refuses.
def writeAll (sink : Sink) (written more : Bytes) : Result Bytes :=
  if sink.accepts (written ++ more).length then .ok (written ++ more) else .error (.io .other)

-- The chunk loop of a seal: output so far and the bytes BLAKE3 has seen. The
-- loop breaks on the last chunk, so `total` rounds suffice.
def sealLoop (sink : Sink) (dek : Dek) (np : NoncePrefix) (headerHash : HeaderHash)
    (chunk total : Nat) :
    Nat → Nat → Nat → Reader → Bytes → Bytes → Result (Bytes × Bytes)
  | 0, _, _, _, written, hashed => .ok (written, hashed)
  | fuel + 1, index, remaining, r, written, hashed => do
      let want := min remaining chunk
      match r.readExact want with
      | none => .error (.io .unexpectedEof)
      | some (buf, r) =>
          let isLast := decide (index + 1 = total)
          let frame ← encryptOrFail P dek (nonce np index) (chunkAad headerHash index isLast) buf
          let written ← writeAll sink written frame
          if isLast then return (written, hashed ++ frame)
          else
            sealLoop sink dek np headerHash chunk total fuel (index + 1) (remaining - want) r
              written (hashed ++ frame)

-- Magic, version, header, chunk frames and trailer.
def writeContainer (sink : Sink) (headerBytes : Bytes) (chunk plen : Nat) (r : Reader)
    (rng : SealRandom) : Result Bytes := do
  let headerHash := P.sha256 headerBytes
  let w ← writeAll sink [] magic
  let w ← writeAll sink w [versionMajor, versionMinor]
  let w ← writeAll sink w (leBytes 4 headerBytes.length)
  let w ← writeAll sink w headerBytes
  let total := chunkCount plen chunk
  let (w, hashed) ← sealLoop P sink rng.dek rng.np headerHash chunk total total 0 plen r w []
  let w ← writeAll sink w headerHash.bytes
  let w ← writeAll sink w (leBytes 8 total)
  let w ← writeAll sink w (P.blake3 hashed).bytes
  if sink.flushes then return w else .error (.io .other)

-- `seal_signed`: the owner envelope goes to `ownerPk`, the header is signed by
-- `signer`.
def sealSigned (input : Seekable) (sink : Sink) (ownerPk : FixedBytes 32) (signer : SigningKeys)
    (opts : SealOptions) (rng : SealRandom) : Result (Header × Bytes) := do
  if opts.chunkSize = 0 ∨ opts.chunkSize > maxChunk then
    .error (.badChunkSize (UInt32.ofNat opts.chunkSize))
  else
    let (plaintext, plen, r) := hashPass opts.chunkSize (input.data.length + 1) input.toReader [] 0
    let header ← sealHeader P plaintext plen ownerPk signer opts rng
    let headerBytes ← header.encode P
    let out ← writeContainer P sink headerBytes opts.chunkSize plen r.seekStart rng
    return (header, out)

-- `seal`
def sealContainer (input : Seekable) (sink : Sink) (owner : OwnerKeys P) (opts : SealOptions)
    (rng : SealRandom) : Result (Header × Bytes) :=
  sealSigned P input sink owner.sealing.x25519Pk owner.signing opts rng

end Seal

section Open

variable (P : Primitives)

def validateHeader (h : Header) : Result Unit :=
  let b := h.body
  if b.cipher ≠ cipherXChaCha20Poly1305Chunked then .error (.unsupportedCipher b.cipher)
  else if b.chunk = 0 ∨ b.chunk.toNat > maxChunk then .error (.badChunkSize b.chunk)
  else if b.ver = 0 then .error (.headerDecode "version must be >= 1")
  else if decide (b.ver = 1) ≠ b.prev.isNone then
    .error (.headerDecode "version/prev chain mismatch")
  else if b.own = [] ∨ b.own.length > maxOwnerLen then .error (.headerDecode "owner account length")
  else if b.name.length > maxNameCtLen ∨ b.name.length < namePadBlock + tagLen then
    .error (.headerDecode "file name field length")
  else if b.env = [] ∨ b.env.length > maxEnvelopes then .error (.headerDecode "envelope count")
  else if b.env.any (fun e =>
      e.enc.length > maxEnvelopeFieldLen ∨ e.ct.length > maxEnvelopeFieldLen) then
    .error (.headerDecode "envelope field length")
  else .ok ()

-- Magic and header only; the reader that comes back stands at chunk 0.
def readHeader (r : Reader) : Result (Header × HeaderHash × Reader) :=
  match r.readExact 8 with
  | none => .error .badMagic
  | some (head, r) =>
    if head.take 6 ≠ magic then .error .badMagic
    else if head.getD 6 0 ≠ versionMajor then
      .error (.unsupportedVersion (head.getD 6 0) (head.getD 7 0))
    else match r.readExact 4 with
      | none => .error (.io .unexpectedEof)
      | some (lenBytes, r) =>
        let len := leNat lenBytes
        if len > maxHeaderLen then .error (.headerTooLarge len)
        else match r.readExact len with
          | none => .error .truncated
          | some (headerBytes, r) => do
            let (h, hash) ← Header.decodeVerified P headerBytes
            validateHeader h
            return (h, hash, r)

def inspect (r : Reader) : Result (Header × HeaderHash) := do
  let (h, hash, _) ← readHeader P r
  return (h, hash)

def decryptName (h : Header) (dek : Dek) : Result String :=
  match P.aead.decrypt dek (nonce h.body.np nameIndex) nameAad h.body.name with
  | none => .error .nameAuth
  | some padded => unpadName padded

structure Opened where
  header : Header
  headerHash : HeaderHash
  fileName : String

-- What an open did: its result, and the bytes it handed to the output's
-- buffered writer, which are there whether it succeeded or not.
structure OpenRun where
  result : Result Opened
  written : Bytes

-- The chunk loop of an open: `left` rounds to go.
def openLoop (sink : Sink) (dek : Dek) (np : NoncePrefix) (headerHash : HeaderHash)
    (chunk total : Nat) :
    Nat → Nat → Nat → Reader → Bytes → Bytes → Result (Reader × Bytes) × Bytes
  | 0, _, _, r, hashed, written => (.ok (r, hashed), written)
  | left + 1, index, remaining, r, hashed, written =>
      let want := min remaining chunk + tagLen
      match r.readExact want with
      | none => (.error .truncated, written)
      | some (frame, r) =>
        let isLast := decide (index + 1 = total)
        match P.aead.decrypt dek (nonce np index) (chunkAad headerHash index isLast) frame with
        | none => (.error (.chunkAuth index), written)
        | some pt =>
          if sink.accepts (written ++ pt).length then
            openLoop sink dek np headerHash chunk total left (index + 1)
              (remaining - (want - tagLen)) r (hashed ++ frame) (written ++ pt)
          else (.error (.io .other), written ++ pt)

-- The 72-byte trailer, the end of the input, and the final flush.
def openTrailer (sink : Sink) (headerHash : HeaderHash) (total : Nat) (r : Reader)
    (hashed : Bytes) : Result Unit :=
  match r.readExact 72 with
  | none => .error .truncated
  | some (tr, r) =>
    if (r.read 1).1 ≠ [] then .error .truncated
    else if tr.take 32 ≠ headerHash.bytes ∨ leNat ((tr.drop 32).take 8) ≠ total ∨
        tr.drop 40 ≠ (P.blake3 hashed).bytes then .error .truncated
    else if sink.flushes then .ok () else .error (.io .other)

def openWithDek (h : Header) (headerHash : HeaderHash) (r : Reader) (sink : Sink) (dek : Dek) :
    OpenRun :=
  match decryptName P h dek with
  | .error e => ⟨.error e, []⟩
  | .ok fileName =>
    let chunk := h.body.chunk.toNat
    let plen := h.body.plen.toNat
    let total := chunkCount plen chunk
    match openLoop P sink dek h.body.np headerHash chunk total total 0 plen r [] [] with
    | (.error e, written) => ⟨.error e, written⟩
    | (.ok (r, hashed), written) =>
      match openTrailer P sink headerHash total r hashed with
      | .error e => ⟨.error e, written⟩
      | .ok () => ⟨.ok ⟨h, headerHash, fileName⟩, written⟩

-- `open`: with a DEK from an embedded envelope for `keys`.
def openContainer (input : Reader) (sink : Sink) (keys : DeviceKeys P) : OpenRun :=
  match readHeader P input with
  | .error e => ⟨.error e, []⟩
  | .ok (h, hash, r) =>
    match h.body.env.find? (fun e => e.kid = keys.keyId) with
    | none => ⟨.error .noEnvelope, []⟩
    | some env =>
      match env.openDek keys h.body.fid.bytes with
      | .error e => ⟨.error e, []⟩
      | .ok dek => openWithDek P h hash r sink dek

end Open

section Chain

variable (P : Primitives)

-- The rest of a chain, after the version with this header and hash.
def verifyLinks (prev : Header) (prevHash : HeaderHash) : List (Header × HeaderHash) → Result Unit
  | [] => .ok ()
  | (h, hash) :: rest =>
    if h.body.ver ≠ prev.body.ver + 1 then
      .error (.brokenChain "version numbers are not consecutive")
    else if h.body.prev ≠ some prevHash then
      .error (.brokenChain "prev does not match the previous header hash")
    else if h.body.fid ≠ prev.body.fid ∨ h.body.salt ≠ prev.body.salt then
      .error (.brokenChain "file identity changed between versions")
    else do
      let own ← h.headerHash P
      if own ≠ hash then .error (.brokenChain "header hash does not match the header")
      else verifyLinks h hash rest

-- The checks before a container is trusted that claims to supersede another, oldest first.
def verifyVersionChain : List (Header × HeaderHash) → Result Unit
  | [] => .error (.brokenChain "empty chain")
  | (first, hash) :: rest =>
    if first.body.ver ≠ 1 ∨ first.body.prev.isSome then
      .error (.brokenChain "chain does not start at version 1")
    else verifyLinks P first hash rest

end Chain

end Zbacs.Core
