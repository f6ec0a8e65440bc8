import Zbacs.Lib.Threads
import Zbacs.Relay.State

namespace Zbacs.Relay

open Zbacs.Lib Zbacs.Proto

structure RelayLibraries extends Libraries where
  announceCodec : Codec DeviceAnnounce

def refuse (code : ErrorCode) : Ack := ⟨false, none, some code⟩

def accept (id : FixedBytes 16) : Ack := ⟨true, some id, none⟩

def refusalCode : Refusal → ErrorCode
  | .unknownDevice => .unknownDevice
  | .replayed => .replayed
  | .rateLimited => .rateLimited
  | .unknownRequest => .notFound

-- The quota, then the nonce.
def takeQuotaAndNonce (kid nonce : FixedBytes 16) (now : Instant) (r : Zbacs.Relay) :
    Except ErrorCode Unit × Zbacs.Relay :=
  match r.takeQuota kid now with
  | (.error e, r) => (.error (refusalCode e), r)
  | (.ok (), r) => match r.takeNonce nonce now with
    | (.error e, r) => (.error (refusalCode e), r)
    | (.ok (), r) => (.ok (), r)

section

variable (L : RelayLibraries)

-- Shape, then size, then who signed it, then quota, then replay.
def authenticate {α : Type} (kind : Kind) (codec : Codec α) (body : Bytes) (now : Instant)
    (r : Zbacs.Relay) : Except ErrorCode (Signed × α) × Zbacs.Relay :=
  if body.length > maxBodyLen then (.error .tooLarge, r)
  else match Signed.fromBytes L.toLibraries body with
    | .error e => (.error e.code, r)
    | .ok signed => match r.devices signed.kid with
      | none => (.error .unknownDevice, r)
      | some device => match signed.verify L.toLibraries kind codec device.ed25519Pub now.unix with
        | .error e => (.error e.code, r)
        | .ok (payload, nonce) => match takeQuotaAndNonce signed.kid nonce now r with
          | (.error e, r) => (.error e, r)
          | (.ok (), r) => (.ok (signed, payload), r)

-- An announcement carries the very key that signs it.
def authenticateAnnounce (body : Bytes) (now : Instant) (r : Zbacs.Relay) :
    Except ErrorCode (Signed × DeviceAnnounce) × Zbacs.Relay :=
  if body.length > maxBodyLen then (.error .tooLarge, r)
  else match Signed.fromBytes L.toLibraries body with
    | .error _ => (.error .malformed, r)
    | .ok signed => match L.announceCodec.decode signed.payload with
      | .error _ => (.error .malformed, r)
      | .ok claimed =>
        match signed.verify L.toLibraries .announce L.announceCodec claimed.ed25519Pub now.unix with
        | .error _ => (.error .unauthenticated, r)
        | .ok (announce, nonce) =>
          if kidOf L.toLibraries announce.ed25519Pub ≠ signed.kid then (.error .unauthenticated, r)
          else if announce.label.any (fun label => label.utf8ByteSize > 32) then (.error .malformed, r)
          else match takeQuotaAndNonce signed.kid nonce now r with
            | (.error e, r) => (.error e, r)
            | (.ok (), r) => (.ok (signed, announce), r)

inductive Endpoint where
  | devices
  | requests
  | grants
  | versions
  | revocations
deriving DecidableEq, Repr

structure InboxQuery where
  owner : Option String
  device : Option String
deriving DecidableEq

-- A device reads its own inbox; an owner reads by account.
def InboxQuery.target (q : InboxQuery) : Option Inbox :=
  match q.owner, q.device with
  | some owner, none => match hexDecode owner with
    | some bytes => if bytes ≠ [] ∧ bytes.length ≤ 64 then some (.owner bytes) else none
    | none => none
  | none, some device => (hexDecodeTo 16 device).map .device
  | _, _ => none

inductive Arrival where
  | post (endpoint : Endpoint) (body : Bytes)
  | inbox (query : InboxQuery)
deriving DecidableEq

-- Where a handler is: what it does next, under the relay's lock, and what it needs for it.
inductive Handler where
  | arrived (arrival : Arrival)
  | announcing (kid : FixedBytes 16) (device : Device)
  | remembering (kid : FixedBytes 16) (request : AccessRequest) (body : Bytes)
  | noting (kid : FixedBytes 16) (request : AccessRequest) (body : Bytes)
  | routing (grant : GrantMsg) (body : Bytes)
  | lookingUp (revoke : Revoke) (body : Bytes)
  | queueing (targets : List Inbox) (kind : Kind) (body : Bytes) (id : FixedBytes 16)
  | replied (ack : Ack)
  | handed (envelopes : List Envelope)
deriving DecidableEq

-- The clock, and the queue id the generator draws.
structure Tick where
  now : Instant
  id : FixedBytes 16
deriving DecidableEq

-- An envelope has passed authentication.
structure Passed where
  signed : Signed
  since : Instant
deriving DecidableEq

-- Once the submission is authenticated.
def continueWith {α : Type} (next : Signed → α → Handler) (now : Instant) :
    Except ErrorCode (Signed × α) × Zbacs.Relay → List Passed × Handler × Zbacs.Relay
  | (.error code, r) => ([], .replied (refuse code), r)
  | (.ok (signed, payload), r) => ([⟨signed, now⟩], next signed payload, r)

-- The message must be about the device that signed it.
def requested (body : Bytes) (signed : Signed) (request : AccessRequest) : Handler :=
  if request.deviceKid ≠ signed.kid ∨ kidOf L.toLibraries request.ed25519Pub ≠ signed.kid then
    .replied (refuse .unauthenticated)
  else if request.owner = [] ∨ request.owner.length > 64 then .replied (refuse .malformed)
  else .remembering signed.kid request body

def versioned (body : Bytes) (signed : Signed) (version : VersionMsg) : Handler :=
  if kidOf L.toLibraries version.ed25519Pub ≠ signed.kid then .replied (refuse .unauthenticated)
  else if version.owner = [] ∨ version.owner.length > 64 then .replied (refuse .malformed)
  else .queueing [.owner version.owner] .version body (.replicate 16 0)

def announced (signed : Signed) (announce : DeviceAnnounce) : Handler :=
  .announcing signed.kid ⟨announce.ed25519Pub, announce.x25519Pub, announce.label⟩

def receive (arrival : Arrival) (now : Instant) (r : Zbacs.Relay) :
    List Passed × Handler × Zbacs.Relay :=
  match arrival with
  | .post .devices body => continueWith announced now (authenticateAnnounce L body now r)
  | .post .requests body =>
      continueWith (requested L body) now (authenticate L .req L.requestCodec body now r)
  | .post .grants body =>
      continueWith (fun _ grant => .routing grant body) now
        (authenticate L .grant L.grantCodec body now r)
  | .post .versions body =>
      continueWith (versioned L body) now (authenticate L .version L.versionCodec body now r)
  | .post .revocations body =>
      continueWith (fun _ revoke => .lookingUp revoke body) now
        (authenticate L .revoke L.revokeCodec body now r)
  | .inbox query => match query.target with
    | none => ([], .replied (refuse .malformed), r)
    | some target =>
      let (envelopes, r) := r.drain target now
      ([], .handed envelopes, r)

def Handler.run (h : Handler) (tick : Tick) (r : Zbacs.Relay) : List Passed × Handler × Zbacs.Relay :=
  match h with
  | .arrived arrival => receive L arrival tick.now r
  | .announcing kid device => ([], .replied (accept kid), r.announce kid device)
  | .remembering kid request body =>
      ([], .noting kid request body, r.rememberRequest request.nonce kid tick.now)
  | .noting kid request body =>
      ([], .queueing [.owner request.owner] .req body (.replicate 16 0),
        r.rememberInterest request.fid kid tick.now)
  | .routing grant body => match r.routeFor grant.requestNonce tick.now with
    | (.error e, r) => ([], .replied (refuse (refusalCode e)), r)
    | (.ok kid, r) => ([], .queueing [.device kid] .grant body (.replicate 16 0), r)
  | .lookingUp revoke body =>
      let (kids, r) := r.interested revoke.fid tick.now
      ([], .queueing (kids.map .device) .revoke body (.replicate 16 0), r)
  | .queueing [] _ _ id => ([], .replied (accept id), r)
  | .queueing (target :: targets) kind body _ =>
      ([], .queueing targets kind body tick.id, r.enqueue target kind body tick.id tick.now)
  | .replied ack => ([], .replied ack, r)
  | .handed envelopes => ([], .handed envelopes, r)

abbrev Server := Threads Zbacs.Relay Handler

def Server.start : Server := ⟨Zbacs.Relay.new, []⟩

-- A submission arrives, or one of the handlers goes on.
def Server.turn (s : Server) : Turn Arrival Tick → List Passed × Server :=
  Threads.turn Handler.arrived (Handler.run L) s

end

section Routing

variable {L : RelayLibraries} {grant : GrantMsg} {body : Bytes} {tick : Tick} {r : Zbacs.Relay}

-- A grant goes to the device its route names, or there is none.
theorem routing_cases :
    (∃ kid, (r.routeFor grant.requestNonce tick.now).1 = .ok kid ∧
      (Handler.routing grant body).run L tick r = ([], .queueing [.device kid] .grant body (.replicate 16 0),
        (r.routeFor grant.requestNonce tick.now).2)) ∨
    ∃ why, (r.routeFor grant.requestNonce tick.now).1 = .error why ∧
      (Handler.routing grant body).run L tick r = ([], .replied (refuse (refusalCode why)),
        (r.routeFor grant.requestNonce tick.now).2) := by
  simp only [Handler.run]
  rcases r.routeFor grant.requestNonce tick.now with ⟨why | kid, r'⟩
  · exact .inr ⟨why, rfl, rfl⟩
  · exact .inl ⟨kid, rfl, rfl⟩

-- Either way nothing passes, and of the relay only old routes go.
theorem routing_leaves : ((Handler.routing grant body).run L tick r).1 = [] ∧
    ((Handler.routing grant body).run L tick r).2.2 = (r.routeFor grant.requestNonce tick.now).2 := by
  obtain ⟨kid, -, hrun⟩ | ⟨why, -, hrun⟩ := @routing_cases L grant body tick r <;> rw [hrun] <;>
    exact ⟨rfl, rfl⟩

end Routing

end Zbacs.Relay
