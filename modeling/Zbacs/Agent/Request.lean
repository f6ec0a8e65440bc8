import Zbacs.Core.Container
import Zbacs.Proto.Messages
import Zbacs.Session.State

namespace Zbacs.Agent

open Zbacs.Lib Zbacs.Core Zbacs.Proto Zbacs.Session

-- What a request is about, read from the container header without a key.
structure Target where
  fid : FixedBytes 32
  headerHash : FixedBytes 32
  owner : Bytes
deriving DecidableEq

inductive Mismatch where
  | decision
  | noTerms
  | terms
  | file
  | version
  | device
  | nonce
  | permission
deriving DecidableEq, Repr

-- What an inbox message means for one request.
inductive Answer where
  | notOurs
  | denied
  | granted (permission : Permission) (terms : AccessGrantTerms) (envelope : Option Bytes)
      (txHash : Option (FixedBytes 32))
  | mismatch (what : Mismatch)
deriving DecidableEq

-- What the Agent keeps about a request after it ends.
structure Held where
  session : Zbacs.Session
  terms : Option AccessGrantTerms
  envelope : Option Bytes
deriving DecidableEq

inductive Outcome where
  | granted (permission : Permission) (expiry : UInt64)
  | denied
  | expired
  | cancelled
  | failed (reason : Problem)
deriving DecidableEq

inductive Phase where
  | sent
  | nudge
  | granted
  | denied
  | expired
  | cancelled
  | failed
  | expiredGrant
  | revoked
deriving DecidableEq, Repr

-- Checks still outstanding when a grant is reported.
inductive Pending where
  | openFile
  | ownerSignatureCheck
deriving DecidableEq, Repr

structure Update where
  path : String
  phase : Phase
  decision : Option Permission
  expiry : Option UInt64
  problem : Option Problem
  pending : List Pending
deriving DecidableEq

def Update.new (path : String) (phase : Phase) : Update := ⟨path, phase, none, none, none, []⟩

inductive ClientError where
  | unreachable
  | refused
  | other
deriving DecidableEq, Repr

def relayProblem : ClientError → Problem
  | .unreachable => .relayUnreachable
  | .refused => .relayRefused
  | .other => .failed

-- What a node says to `isValid(grantId)`.
inductive ChainAnswer where
  | valid
  | invalid
  | unreachable
deriving DecidableEq, Repr

-- Timings in milliseconds.
structure Limits where
  poll : Nat
  nudgeAfter : Nat
  giveUpAfter : Nat

def Limits.default : Limits := ⟨2000, 120000, 300000⟩

section Classify

variable (L : Libraries)

-- The terms of an answer with our nonce, against what was asked for.
def checkTerms (terms : AccessGrantTerms) (permission : Permission) (nonce : FixedBytes 16)
    (target : Target) (ourKeyHash : FixedBytes 32) (envelope : Option Bytes)
    (txHash : Option (FixedBytes 32)) : Answer :=
  if terms.fileId ≠ target.fid then .mismatch .file
  else if terms.headerHash ≠ target.headerHash then .mismatch .version
  else if terms.deviceKeyHash ≠ ourKeyHash then .mismatch .device
  else if terms.requestNonce ≠ nonce then .mismatch .nonce
  else if terms.permission ≠ permission.toByte then .mismatch .permission
  else .granted permission terms envelope txHash

def checkGrant (grant : GrantMsg) (permission : Permission) (nonce : FixedBytes 16)
    (target : Target) (ourKeyHash : FixedBytes 32) : Answer :=
  match grant.grant with
  | none => .mismatch .noTerms
  | some bytes => match AccessGrantTerms.fromCbor L bytes with
    | .error _ => .mismatch .terms
    | .ok terms =>
      checkTerms terms permission nonce target ourKeyHash grant.envelope grant.txHash

-- Decide what an envelope from the inbox means.
def classify (envelope : Proto.Envelope) (nonce : FixedBytes 16) (target : Target)
    (ourKeyHash : FixedBytes 32) : Answer :=
  if envelope.kind ≠ .grant then .notOurs
  else match Signed.fromBytes L envelope.body with
    | .error _ => .notOurs
    | .ok signed =>
      if signed.kind ≠ .grant then .notOurs
      else match L.grantCodec.decode signed.payload with
        | .error _ => .notOurs
        | .ok grant =>
          if grant.requestNonce ≠ nonce then .notOurs
          else match grant.decision with
            | 0 => .denied
            | 1 => checkGrant L grant .readOnly nonce target ourKeyHash
            | 2 => checkGrant L grant .edit nonce target ourKeyHash
            | _ => .mismatch .decision

-- Does this inbox message pull back the grant we hold?
def isRevokeFor (envelope : Proto.Envelope) (grantId : FixedBytes 32) : Bool :=
  if envelope.kind ≠ .revoke then false
  else match Signed.fromBytes L envelope.body with
    | .error _ => false
    | .ok signed =>
      if signed.kind ≠ .revoke then false
      else match L.revokeCodec.decode signed.payload with
        | .error _ => false
        | .ok revoke => revoke.grantId = grantId

end Classify

-- Everything one request needs. `chain` says whether this machine has a link.
structure Asking where
  path : String
  target : Target
  requested : Permission
  ourKeyHash : FixedBytes 32
  limits : Limits
  chain : Bool

-- How the two submissions before the wait went, and what was drawn for them.
structure Sending where
  announced : Except ClientError Unit
  nonce : FixedBytes 16
  sent : Except ClientError Unit

-- One round of the wait: the cancel flag, the time waited, the inbox (unless the
-- read failed), what the node would answer, and the clock.
structure Poll where
  cancelled : Bool
  waited : Nat
  inbox : Option (List Proto.Envelope)
  chain : FixedBytes 32 → ChainAnswer
  now : UInt64

-- How a request ended. `confirmed` are the grant ids the chain said yes to.
structure Asked where
  outcome : Outcome
  held : Held
  updates : List Update
  confirmed : List (FixedBytes 32)

section Ask

variable (L : Libraries)

def buildRequest (target : Target) (device : DeviceIdentity L) (requested : Permission)
    (nonce : FixedBytes 16) (now : UInt64) : AccessRequest :=
  { fid := target.fid
    headerHash := target.headerHash
    owner := target.owner
    deviceKid := device.kid
    x25519Pub := device.x25519Pub
    ed25519Pub := device.ed25519Pub
    requested := requested.toByte
    nonce := nonce
    hint := none
    ts := now }

-- A held value without a grant: only the session it ended in.
def Held.ofSession (session : Zbacs.Session) : Held := ⟨session, none, none⟩

def failAsk (path : String) (reason : Problem) (now : UInt64) : Asked :=
  ⟨.failed reason, .ofSession (Session.new.applied (.failed reason) now),
    [{ Update.new path .failed with problem := some reason }], []⟩

-- The owner's word on the public record: asked for when this machine has a link and
-- the answer names a transaction.
def chainWord (asking : Asking) (poll : Poll) (terms : AccessGrantTerms)
    (txHash : Option (FixedBytes 32)) : ChainAnswer :=
  if asking.chain ∧ txHash.isSome then poll.chain (terms.structHash L) else .unreachable

-- An answer for this request that allows it: the chain's word first, then the window.
def takeGrant (asking : Asking) (poll : Poll) (permission : Permission) (terms : AccessGrantTerms)
    (envelope : Option Bytes) (txHash : Option (FixedBytes 32)) : Asked :=
  if chainWord L asking poll terms txHash = .invalid then failAsk asking.path .mismatch poll.now
  else match Session.new.apply
      (.granted permission terms.notBefore terms.expiry terms.maxOpens) poll.now with
    | .error _ => failAsk asking.path .window poll.now
    | .ok (session, _) =>
      { outcome := .granted permission terms.expiry
        held := ⟨session, some terms, envelope⟩
        updates := [{ Update.new asking.path .granted with
          decision := some permission
          expiry := some terms.expiry
          pending := if chainWord L asking poll terms txHash = .valid then [.openFile]
            else [.openFile, .ownerSignatureCheck] }]
        confirmed := if chainWord L asking poll terms txHash = .valid then [terms.structHash L]
          else [] }

-- What one message does to the wait; `none` goes on to the next.
def settle (asking : Asking) (nonce : FixedBytes 16) (poll : Poll) (envelope : Proto.Envelope) :
    Option Asked :=
  match classify L envelope nonce asking.target asking.ourKeyHash with
  | .notOurs => none
  | .denied => some ⟨.denied, .ofSession (Session.new.applied .denied poll.now),
      [Update.new asking.path .denied], []⟩
  | .mismatch _ => some (failAsk asking.path .mismatch poll.now)
  | .granted permission terms envelope txHash =>
      some (takeGrant L asking poll permission terms envelope txHash)

-- The wait. `none`: still waiting when the rounds run out.
def askLoop (asking : Asking) (nonce : FixedBytes 16) : List Poll → Bool → Option Asked
  | [], _ => none
  | poll :: rest, nudged =>
      if poll.cancelled then
        some ⟨.cancelled, .ofSession (Session.new.applied (.failed .cancelled) poll.now),
          [Update.new asking.path .cancelled], []⟩
      else if asking.limits.giveUpAfter ≤ poll.waited then
        some ⟨.expired, .ofSession (Session.new.applied .expired poll.now),
          [Update.new asking.path .expired], []⟩
      else
        let nudge := !nudged && decide (asking.limits.nudgeAfter ≤ poll.waited)
        let before := if nudge then [Update.new asking.path .nudge] else []
        match (poll.inbox.getD []).findSome? (settle L asking nonce poll) with
        | some asked => some { asked with updates := before ++ asked.updates }
        | none => (askLoop asking nonce rest (nudged || nudge)).map
            fun asked => { asked with updates := before ++ asked.updates }

def ask (asking : Asking) (sending : Sending) (now : UInt64) (polls : List Poll) : Option Asked :=
  match sending.announced with
  | .error e => some (failAsk asking.path (relayProblem e) now)
  | .ok () => match sending.sent with
    | .error e => some (failAsk asking.path (relayProblem e) now)
    | .ok () => (askLoop L asking sending.nonce polls false).map
        fun asked => { asked with updates := Update.new asking.path .sent :: asked.updates }

end Ask

section Watch

variable (L : Libraries)

inductive GrantEnd where
  | revoked
  | expired
  | cancelled
deriving DecidableEq, Repr

-- What `watch_grant` did so far: how it ended (if it did), the session it drives
-- and the grant ids the chain said yes to.
structure Watched where
  ended : Option GrantEnd
  session : Zbacs.Session
  confirmed : List (FixedBytes 32)

-- Keep watching a granted session, one round per poll.
def watchGrant (chain : Bool) (grantId : FixedBytes 32) (expiry : UInt64) :
    List Poll → Zbacs.Session → List (FixedBytes 32) → Watched
  | [], session, confirmed => ⟨none, session, confirmed⟩
  | poll :: rest, session, confirmed =>
      if poll.cancelled then ⟨some .cancelled, session, confirmed⟩
      else if expiry ≤ poll.now then ⟨some .expired, session.applied .expired poll.now, confirmed⟩
      else
        let checked : ChainAnswer := if chain then poll.chain grantId else .unreachable
        let confirmed := if checked = .valid then grantId :: confirmed else confirmed
        if checked = .invalid then ⟨some .revoked, session.applied .revoked poll.now, confirmed⟩
        else if (poll.inbox.getD []).any (isRevokeFor L · grantId) then
          ⟨some .revoked, session.applied .revoked poll.now, confirmed⟩
        else watchGrant chain grantId expiry rest session confirmed

end Watch

end Zbacs.Agent
