import Zbacs.Agent.Ledger
import Zbacs.Agent.Request

namespace Zbacs.Agent

open Zbacs.Lib Zbacs.Core Zbacs.Proto

inductive ApproveProblem where
  | unknownFile
  | version
  | fileMoved
  | notMine
  | needsOsConfirm
  | cancelled
  | relayUnreachable
  | failed
deriving DecidableEq, Repr

inductive RevokeProblem where
  | unknownGrant
  | relayUnreachable
deriving DecidableEq, Repr

inductive NoticeProblem where
  | unknownGrant
  | version
deriving DecidableEq, Repr

def maxRequestAgeSecs : UInt64 := 24 * 3600
def notBeforeSlackSecs : UInt64 := 120

def saturatingSub (a b : UInt64) : UInt64 := if b ≤ a then a - b else 0

-- The owner's answer, as the screen sends it.
inductive DecisionArg where
  | deny
  | readOnly
  | edit
deriving DecidableEq, Repr

def DecisionArg.permission : DecisionArg → Permission
  | deny => .deny
  | readOnly => .readOnly
  | edit => .edit

-- One request held for the person, with this machine's record of the file it names, if any.
structure PendingRequest where
  request : AccessRequest
  entry : Option Entry
  entry_fid : ∀ e, entry = some e → e.fid = hexEncode request.fid.bytes

-- A request goes to the person with what the record says then.
def fileRequest (io : LedgerIo) (request : AccessRequest) (l : Ledger) : PendingRequest :=
  ⟨request, l.find io request.fid, fun _ he => Ledger.find_fid he⟩

section Confirm

inductive Confirmation where
  | notRequired
  | osUserVerification
deriving DecidableEq, Repr

structure ConfirmationPolicy where
  editRequiresConfirmation : Bool
  burstLimit : UInt32
  burstWindowSecs : UInt64

def ConfirmationPolicy.default : ConfirmationPolicy := ⟨true, 5, 600⟩

-- Never weaker than what was chosen for the device.
def ConfirmationPolicy.required (policy : ConfirmationPolicy) (permission : Permission)
    (deviceSetting : Confirmation) (recent : List UInt64) (now : UInt64) : Confirmation :=
  if deviceSetting = .osUserVerification then .osUserVerification
  else if policy.editRequiresConfirmation ∧ permission = .edit then .osUserVerification
  else
    let windowStart := saturatingSub now policy.burstWindowSecs
    let count := (recent.filter fun t => windowStart ≤ t ∧ t ≤ now).length
    if policy.burstLimit ≤ UInt32.ofNat count then .osUserVerification else .notRequired

end Confirm

section Chain

inductive ChainError where
  | unreachable
  | rejected
  | malformed
  | config (why : String)
deriving DecidableEq, Repr

inductive Call where
  | grant (terms : AccessGrantTerms)
  | revoke (fileId grantId : FixedBytes 32)
  | bumpVersion (fileId headerHash : FixedBytes 32)
deriving DecidableEq

-- A machine's link to the chain: whether it can write, whether through a smart account, and
-- whether a write without a tap has to wait for the next one.
structure ChainLink where
  writes : Bool
  smart : Bool
  defersSilentWrites : Bool
deriving DecidableEq

-- What the node says to a batch, and how the ledger's file behaves around it.
structure ChainEnv where
  submit : List Call → Except ChainError (FixedBytes 32)
  readIo : LedgerIo
  writeIo : LedgerIo

def decodeBump (bump : String × String) : Option Call := do
  let fid ← hexDecodeTo 32 bump.1
  let headerHash ← hexDecodeTo 32 bump.2
  return .bumpVersion fid headerHash

-- A write the person asked for, with whatever was waiting for a tap in front of it.
def ChainLink.write (link : ChainLink) (env : ChainEnv) (call : Call) (l : Ledger) :
    Except ChainError (FixedBytes 32) × Ledger :=
  if !link.writes then (.error (.config "no writer"), l)
  else
    let waiting := l.waitingBumps env.readIo
    match env.submit (waiting.filterMap decodeBump ++ [call]) with
    | .error e => (.error e, l)
    | .ok tx => (.ok tx, if waiting = [] then l else (l.clearDeferredBumps env.writeIo waiting).2)

-- A recipient's accepted version: sent now, or queued (`none`) for the next tap.
def ChainLink.bumpVersion (link : ChainLink) (env : ChainEnv) (fileId headerHash : FixedBytes 32)
    (l : Ledger) : Except ChainError (Option (FixedBytes 32)) × Ledger :=
  if !link.writes then (.error (.config "no writer"), l)
  else if link.defersSilentWrites then
    match l.deferBump env.writeIo (hexEncode fileId.bytes) (hexEncode headerHash.bytes) with
    | (.error _, l) => (.error (.config "cannot write the ledger"), l)
    | (.ok (), l) => (.ok none, l)
  else ((env.submit [.bumpVersion fileId headerHash]).map some, l)

end Chain

section Inbox

variable (L : Libraries)

-- The envelope is from the key its payload carries.
def acceptSigned {α : Type} (kind : Kind) (codec : Codec α) (keyOf : α → FixedBytes 32)
    (claims : α → Signed → Bool) (envelope : Proto.Envelope) : Option (α × UInt64) :=
  if envelope.kind ≠ kind then none
  else match Signed.fromBytes L envelope.body with
    | .error _ => none
    | .ok signed => match codec.decode signed.payload with
      | .error _ => none
      | .ok claimed =>
        if !claims claimed signed then none
        else (signed.verifyQueued L kind codec (keyOf claimed)).toOption

def isFresh (ts now : UInt64) : Bool :=
  decide (ts ≤ now + maxSkewSecs ∧ saturatingSub now ts ≤ maxRequestAgeSecs)

-- Read one queued envelope as a request for `owner`, verifying the sender's own signature
-- with the key the request carries.
def acceptRequest (envelope : Proto.Envelope) (owner : Bytes) (now : UInt64) : Option AccessRequest :=
  match acceptSigned L .req L.requestCodec (·.ed25519Pub)
      (fun claimed signed => kidOf L claimed.ed25519Pub = claimed.deviceKid ∧
        claimed.deviceKid = signed.kid) envelope with
  | none => none
  | some (request, ts) =>
    if request.owner ≠ owner then none
    else if !isFresh ts now then none
    else if request.requested ≠ 1 ∧ request.requested ≠ 2 then none
    else some request

-- Read one queued envelope as a version notice for `owner`, verified with the key it carries.
def acceptVersion (envelope : Proto.Envelope) (owner : Bytes) (now : UInt64) : Option VersionMsg :=
  match acceptSigned L .version L.versionCodec (·.ed25519Pub)
      (fun claimed signed => kidOf L claimed.ed25519Pub = signed.kid) envelope with
  | none => none
  | some (notice, ts) => if notice.owner ≠ owner ∨ !isFresh ts now then none else some notice

end Inbox

section Answer

variable (L : Libraries)

-- The terms an allow puts on the wire: this file, this version, the asking device, and the
-- window and budget chosen when locking.
def termsFor (request : AccessRequest) (entry : Entry) (permission : Permission)
    (grantNonce now : UInt64) : AccessGrantTerms :=
  { fileId := request.fid
    headerHash := request.headerHash
    deviceKeyHash := deviceKeyHash L request.x25519Pub request.ed25519Pub
    permission := permission.toByte
    notBefore := saturatingSub now notBeforeSlackSecs
    expiry := now + max entry.ttl 60
    maxOpens := entry.maxOpens
    requestNonce := request.nonce
    grantNonce := grantNonce }

-- The file's key for the asking device, bound to the grant.
def rewrap (request : AccessRequest) (dek : Dek) (grantId : FixedBytes 32) (seed : Bytes) :
    Except ApproveProblem Bytes :=
  match Envelope.sealDek L.toPrimitives request.x25519Pub.bytes dek grantId.bytes seed with
  | .error _ => .error .failed
  | .ok wrapped => (L.envelopeCodec.encode wrapped).mapError fun _ => .failed

-- The owner's envelope of a version a recipient wrote: it came with the notice.
def storedKey (entry : Entry) (stored : Bytes) (request : AccessRequest)
    (owner : OwnerKeys L.toPrimitives) : Except ApproveProblem Dek :=
  if entry.headerHash ≠ hexEncode request.headerHash.bytes then .error .version
  else match L.envelopeCodec.decode stored, hexDecodeTo 32 entry.fid with
    | .ok mine, some fid => (mine.openDek owner.sealing fid.bytes).mapError fun _ => .notMine
    | _, _ => .error .notMine

-- The owner's envelope in the file on disk.
def diskKey (entry : Entry) (request : AccessRequest) (owner : OwnerKeys L.toPrimitives)
    (offer : Nat → Nat) (fs : Fs) : Except ApproveProblem Dek :=
  match fs.readFile entry.path with
  | none => .error .fileMoved
  | some container => match inspect L.toPrimitives (.ofData container offer) with
    | .error _ => .error .fileMoved
    | .ok (header, headerHash) =>
      if headerHash ≠ request.headerHash then .error .version
      else match header.body.env.find? (fun e => e.kid = owner.sealing.keyId) with
        | none => .error .notMine
        | some mine => (mine.openDek owner.sealing header.body.fid.bytes).mapError fun _ => .notMine

-- Re-wrap the file's key for the asking device.
def envelopeFor (entry : Entry) (request : AccessRequest) (owner : OwnerKeys L.toPrimitives)
    (grantId : FixedBytes 32) (seed : Bytes) (offer : Nat → Nat) (fs : Fs) :
    Except ApproveProblem Bytes :=
  match entry.ownerEnvelope with
  | some stored => match storedKey L entry stored request owner with
    | .error e => .error e
    | .ok dek => rewrap L request dek grantId seed
  | none => match diskKey L entry request owner offer fs with
    | .error e => .error e
    | .ok dek => rewrap L request dek grantId seed

inductive AuthError where
  | cancelled
  | confirmationUnavailable
  | other
deriving DecidableEq, Repr

def signingProblem : AuthError → ApproveProblem
  | .cancelled => .cancelled
  | .confirmationUnavailable => .needsOsConfirm
  | .other => .failed

-- `why.contains(..)` on the two words a user operation's signer reports.
def writeProblem : ChainError → ApproveProblem
  | .config why =>
      if "ancel".toList <:+: why.toList then .cancelled
      else if "onfirm".toList <:+: why.toList then .needsOsConfirm
      else .failed
  | _ => .failed

structure Deployment where
  chainId : UInt64
  policy : FixedBytes 20

-- What an answer meets: the clock, the link, what the signer and the relay do, the randomness
-- of the envelope, how the locked file reads and how the ledger's file behaves.
structure AnswerEnv where
  now : UInt64
  link : Option ChainLink
  chainNonce : Option UInt64
  chain : ChainEnv
  deviceSetting : Confirmation
  policy : ConfirmationPolicy
  recent : List UInt64
  sign : FixedBytes 32 → Confirmation → Except AuthError Bytes
  relay : Except ClientError Unit
  seed : Bytes
  offer : Nat → Nat
  nonceIo : LedgerIo
  recordIo : LedgerIo

inductive StillPending where
  | chainGrant
deriving DecidableEq, Repr

structure Answered where
  id : String
  decision : DecisionArg
  grantId : Option String
  expiry : Option UInt64
  confirmedByOs : Bool
  txHash : Option String
  pending : List StillPending
deriving DecidableEq

-- An answer that went out, with the request it answers and the terms it carries.
structure Sent where
  request : AccessRequest
  terms : Option AccessGrantTerms
  message : GrantMsg
deriving DecidableEq

structure AnswerStep where
  result : Except ApproveProblem Answered
  ledger : Ledger
  sent : List Sent

-- Whether this machine writes to the chain.
def AnswerEnv.onChain (env : AnswerEnv) : Option ChainLink := env.link.filter (·.writes)

def AnswerEnv.smart (env : AnswerEnv) : Bool := env.link.any (·.smart)

-- The nonce the contract will demand, when there is one to ask; the local count otherwise.
def takeNonce (env : AnswerEnv) (l : Ledger) : Except LedgerError UInt64 × Ledger :=
  match env.onChain, env.chainNonce with
  | some _, some nonce => (.ok nonce, l)
  | _, _ => l.nextGrantNonce env.nonceIo

-- The public record, before the answer goes out.
def writeGrant (env : AnswerEnv) (terms : AccessGrantTerms) (l : Ledger) :
    Except ApproveProblem (Option (FixedBytes 32) × List StillPending) × Ledger :=
  match env.onChain with
  | none => (.ok (none, [.chainGrant]), l)
  | some link => match link.write env.chain (.grant terms) l with
    | (.ok tx, l) => (.ok (some tx, []), l)
    | (.error e, l) =>
      if env.smart then (.error (writeProblem e), l) else (.ok (none, [.chainGrant]), l)

def refuse (pending : PendingRequest) (env : AnswerEnv) (l : Ledger) : AnswerStep :=
  let id := hexEncode pending.request.nonce.bytes
  match env.relay with
  | .error _ => ⟨.error .relayUnreachable, l, []⟩
  | .ok () => ⟨.ok ⟨id, .deny, none, none, false, none, []⟩, l,
      [⟨pending.request, none, ⟨pending.request.nonce, none, none, none, none, 0, env.now⟩⟩]⟩

-- The signed and wrapped answer goes to the relay and is remembered. What cannot be
-- remembered stays out.
def sendGrant (pending : PendingRequest) (entry : Entry) (decision : DecisionArg)
    (terms : AccessGrantTerms) (ownerSig : Option Bytes) (envelope : Bytes)
    (tx : Option (FixedBytes 32)) (stillPending : List StillPending) (confirmation : Confirmation)
    (env : AnswerEnv) (l : Ledger) : AnswerStep :=
  match terms.toCbor L with
  | .error _ => ⟨.error .failed, l, []⟩
  | .ok bytes => match env.relay with
    | .error _ => ⟨.error .relayUnreachable, l, []⟩
    | .ok () =>
      let grantId := hexEncode (terms.structHash L).bytes
      let txHash := tx.map fun tx => hexEncode tx.bytes
      let grant : Grant :=
        { grantId := grantId
          fid := entry.fid
          fileName := entry.name
          permission := decision.permission
          expiry := terms.expiry
          grantedAt := env.now
          revokedAt := none
          txHash := txHash
          revokeTx := none }
      let message : GrantMsg :=
        { requestNonce := pending.request.nonce
          grant := some bytes
          ownerSig := ownerSig
          envelope := some envelope
          txHash := tx
          decision := decision.permission.toByte
          ts := env.now }
      ⟨.ok ⟨hexEncode pending.request.nonce.bytes, decision, some grantId, some terms.expiry,
          confirmation = .osUserVerification, txHash, stillPending⟩,
        (l.recordGrant env.recordIo grant).2, [⟨pending.request, some terms, message⟩]⟩

-- Sign, re-wrap, write to the chain, send.
def allow (pending : PendingRequest) (entry : Entry) (decision : DecisionArg)
    (owner : OwnerKeys L.toPrimitives) (deployment : Deployment) (env : AnswerEnv) (fs : Fs)
    (grantNonce : UInt64) (l : Ledger) : AnswerStep :=
  let terms := termsFor L pending.request entry decision.permission grantNonce env.now
  let confirmation := env.policy.required decision.permission env.deviceSetting env.recent env.now
  let digest := terms.digest L deployment.chainId deployment.policy
  match if env.smart then .ok none else (env.sign digest confirmation).map some with
  | .error e => ⟨.error (signingProblem e), l, []⟩
  | .ok ownerSig =>
    match envelopeFor L entry pending.request owner (terms.structHash L) env.seed env.offer fs with
    | .error e => ⟨.error e, l, []⟩
    | .ok envelope => match writeGrant env terms l with
      | (.error e, l) => ⟨.error e, l, []⟩
      | (.ok (tx, stillPending), l) =>
        sendGrant L pending entry decision terms ownerSig envelope tx stillPending confirmation env l

-- Answer one request.
def answer (pending : PendingRequest) (decision : DecisionArg) (owner : OwnerKeys L.toPrimitives)
    (deployment : Deployment) (env : AnswerEnv) (fs : Fs) (l : Ledger) : AnswerStep :=
  if decision = .deny then refuse pending env l
  else match pending.entry with
    | none => ⟨.error .unknownFile, l, []⟩
    | some entry =>
      if entry.headerHash ≠ hexEncode pending.request.headerHash.bytes then ⟨.error .version, l, []⟩
      else match takeNonce env l with
        | (.error _, l) => ⟨.error .failed, l, []⟩
        | (.ok nonce, l) => allow L pending entry decision owner deployment env fs nonce l

end Answer

section Revoke

structure RevokeEnv where
  now : UInt64
  relay : Except ClientError Unit
  link : Option ChainLink
  chain : ChainEnv
  readIo : LedgerIo
  markIo : LedgerIo

-- The chain copy, only for a grant that is on the chain.
def writeRevoke (env : RevokeEnv) (grant : Grant) (fid id : FixedBytes 32) (l : Ledger) :
    Option String × Ledger :=
  match env.link.filter (·.writes), grant.txHash with
  | some link, some _ => match link.write env.chain (.revoke fid id) l with
    | (.ok tx, l) => (some (hexEncode tx.bytes), l)
    | (.error _, l) => (none, l)
  | _, _ => (none, l)

-- Pull an approval back: tell the relay, tell the chain when the grant is there, and mark it.
def revokeNow (grantId : String) (env : RevokeEnv) (l : Ledger) :
    Except RevokeProblem Grant × Ledger :=
  match l.grant env.readIo grantId with
  | none => (.error .unknownGrant, l)
  | some grant => match hexDecodeTo 32 grant.grantId, hexDecodeTo 32 grant.fid with
    | some id, some fid => match env.relay with
      | .error _ => (.error .relayUnreachable, l)
      | .ok () =>
        let (revokeTx, l) := writeRevoke env grant fid id l
        match l.markRevoked env.markIo grantId env.now revokeTx with
        | (.error _, l) => (.error .unknownGrant, l)
        | (.ok marked, l) => (.ok marked, l)
    | _, _ => (.error .unknownGrant, l)

end Revoke

section Notice

variable (L : Libraries)

structure NoticeEnv where
  readIo : LedgerIo
  writeIo : LedgerIo
  link : Option ChainLink
  chain : ChainEnv

-- Take a version notice into the record: only for a grant this machine gave for that file,
-- and only as the next version of what it knows.
def applyVersion (env : NoticeEnv) (notice : VersionMsg) (l : Ledger) :
    Except NoticeProblem Entry × Ledger :=
  match l.grant env.readIo (hexEncode notice.grantId.bytes) with
  | none => (.error .unknownGrant, l)
  | some grant =>
    if grant.fid ≠ hexEncode notice.fid.bytes then (.error .unknownGrant, l)
    else match l.advanceVersion env.writeIo notice.fid (hexEncode notice.prevHeaderHash.bytes)
        (hexEncode notice.headerHash.bytes) notice.ver notice.ownerEnvelope with
      | (.error _, l) => (.error .version, l)
      | (.ok entry, l) => (.ok entry, l)

-- One notice of an inbox read: applied, and anchored where this machine writes.
def takeNotice (env : NoticeEnv) (notice : VersionMsg) (l : Ledger) : Ledger :=
  match applyVersion env notice l with
  | (.error _, l) => l
  | (.ok _, l) => match env.link.filter (·.writes) with
    | none => l
    | some link => (link.bumpVersion env.chain notice.fid notice.headerHash l).2

end Notice

end Zbacs.Agent
