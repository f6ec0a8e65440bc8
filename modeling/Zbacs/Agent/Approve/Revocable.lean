import Zbacs.Agent.Owner.Notices
import Zbacs.Agent.RelayClient

namespace Zbacs.Agent

open Zbacs.Lib Zbacs.Core Zbacs.Proto

-- An allow that is signed and wrapped, with nothing of it out yet.
structure PreparedAllow where
  entry : Entry
  terms : AccessGrantTerms
  ownerSig : Option Bytes
  envelope : Bytes
  confirmation : Confirmation

-- What an allow meets outside this machine: whether its message can be signed, what becomes of
-- each attempt to submit it, and whether the chain holds the batch in the end, whatever the node
-- said of it.
structure Outside where
  signs : Bool
  exchanges : List Exchange
  landed : Bool

def AnswerEnv.meeting (env : AnswerEnv) (out : Outside) : AnswerEnv :=
  { env with relay := (signAndSubmit out.signs out.exchanges).result.map fun _ => () }

section Prepare

variable (L : Libraries) (pending : PendingRequest) (decision : DecisionArg)

-- The part of an allow before anything leaves this machine.
def prepare (owner : OwnerKeys L.toPrimitives) (deployment : Deployment) (env : AnswerEnv) (fs : Fs)
    (l : Ledger) : Except ApproveProblem PreparedAllow × Ledger :=
  match pending.entry with
  | none => (.error .unknownFile, l)
  | some entry =>
    if entry.headerHash ≠ hexEncode pending.request.headerHash.bytes then (.error .version, l)
    else match takeNonce env l with
      | (.error _, l) => (.error .failed, l)
      | (.ok nonce, l) =>
        let terms := termsFor L pending.request entry decision.permission nonce env.now
        let confirmation :=
          env.policy.required decision.permission env.deviceSetting env.recent env.now
        let digest := terms.digest L deployment.chainId deployment.policy
        match if env.smart then .ok none else (env.sign digest confirmation).map some with
        | .error e => (.error (signingProblem e), l)
        | .ok ownerSig =>
          match envelopeFor L entry pending.request owner (terms.structHash L) env.seed env.offer fs with
          | .error e => (.error e, l)
          | .ok envelope => (.ok ⟨entry, terms, ownerSig, envelope, confirmation⟩, l)

-- The rest: the chain, the relay, the record.
def PreparedAllow.finish (r : PreparedAllow) (env : AnswerEnv) (l : Ledger) : AnswerStep :=
  match writeGrant env r.terms l with
  | (.error e, l) => ⟨.error e, l, []⟩
  | (.ok (tx, stillPending), l) =>
    sendGrant L pending r.entry decision r.terms r.ownerSig r.envelope tx stillPending r.confirmation
      env l

-- What the relay client is given, if it comes to that.
def PreparedAllow.message (r : PreparedAllow) (env : AnswerEnv) (l : Ledger) : Option GrantMsg :=
  match (writeGrant env r.terms l).1, r.terms.toCbor L with
  | .ok (tx, _), .ok bytes => some
      { requestNonce := pending.request.nonce
        grant := some bytes
        ownerSig := r.ownerSig
        envelope := some r.envelope
        txHash := tx
        decision := decision.permission.toByte
        ts := env.now }
  | _, _ => none

def PreparedAllow.grantId (r : PreparedAllow) : FixedBytes 32 := r.terms.structHash L

-- The grant is on the chain, or its message is in the queue of a relay.
def PreparedAllow.Given (r : PreparedAllow) (env : AnswerEnv) (out : Outside) (l : Ledger) : Prop :=
  env.onChain.isSome = true ∧ out.landed = true ∨
    (r.message L pending decision env l).isSome = true ∧
      ∃ x ∈ (signAndSubmit out.signs out.exchanges).made, x.queued = true

end Prepare

-- The record has an approval under this id, for `revoke_now` to find.
def Ledger.Holds (l : Ledger) (grantId : FixedBytes 32) : Prop :=
  ∃ grant, l.grant .sound (hexEncode grantId.bytes) = some grant

-- The chain does not stop the allow: there is none, or the node takes the batch, or the device
-- has signed the terms itself.
def Proceeds (env : AnswerEnv) (terms : AccessGrantTerms) (l : Ledger) : Prop :=
  env.onChain.isSome = true → env.smart = true → ∃ tx,
    env.chain.submit ((l.waitingBumps env.chain.readIo).filterMap decodeBump ++ [.grant terms]) = .ok tx

-- Nothing of the approval gets out, or it is acknowledged and can be written down, or it is known
-- already.
inductive Accounted (L : Libraries) (r : PreparedAllow) (env : AnswerEnv) (out : Outside) (l : Ledger) : Prop
  | withheld (chain : env.onChain = none ∨ out.landed = false)
      (relay : ¬Proceeds env r.terms l ∨ (∃ e, r.terms.toCbor L = .error e) ∨ out.signs = false ∨
        ¬ComesTo Exchange.queued out.exchanges)
  | recorded (chain : Proceeds env r.terms l) (terms : ∃ bytes, r.terms.toCbor L = .ok bytes)
      (signs : out.signs = true) (relay : ComesTo Exchange.acknowledged out.exchanges)
      (ledger : env.recordIo = .sound)
  | known (held : l.Holds (r.grantId L))

section

variable {L : Libraries} {pending : PendingRequest} {decision : DecisionArg}
  {owner : OwnerKeys L.toPrimitives} {deployment : Deployment} {env : AnswerEnv} {fs : Fs}
  {l l' : Ledger} {r : PreparedAllow} {out : Outside}

-- An allow is prepared and then finished.
theorem answer_eq (hallow : decision ≠ .deny) : answer L pending decision owner deployment env fs l =
    match prepare L pending decision owner deployment env fs l with
    | (.error e, l) => ⟨.error e, l, []⟩
    | (.ok r, l) => r.finish L pending decision env l := by
  unfold answer prepare
  rw [if_neg hallow]
  cases pending.entry with
  | none => rfl
  | some entry =>
      simp only
      split
      · rfl
      · rcases takeNonce env l with ⟨e | nonce, l'⟩
        · rfl
        · unfold allow
          simp only
          generalize (if env.smart = true then Except.ok none else _) = signed
          cases signed with
          | error e => rfl
          | ok ownerSig =>
              generalize envelopeFor L entry pending.request owner _ env.seed env.offer fs = wrapped
              cases wrapped <;> rfl

theorem answer_of_prepare (hallow : decision ≠ .deny)
    (h : prepare L pending decision owner deployment env fs l = (.ok r, l')) :
    answer L pending decision owner deployment env fs l = r.finish L pending decision env l' := by
  rw [answer_eq hallow, h]

theorem prepare_ok {entry : Entry} (hentry : pending.entry = some entry)
    (hversion : entry.headerHash = hexEncode pending.request.headerHash.bytes) {nonce : UInt64}
    (hnonce : takeNonce env l = (.ok nonce, l')) {ownerSig : Bytes}
    (hsmart : env.smart = false) (hsign : ∀ digest how, env.sign digest how = .ok ownerSig)
    {envelope : Bytes} (henvelope : envelopeFor L entry pending.request owner
      ((termsFor L pending.request entry decision.permission nonce env.now).structHash L) env.seed
      env.offer fs = .ok envelope) :
    ∃ r, prepare L pending decision owner deployment env fs l = (.ok r, l') := by
  simp only [prepare, hentry, hversion, hnonce, hsmart, hsign, henvelope, ne_eq, not_true_eq_false,
    if_false, Bool.false_eq_true, Except.map]
  exact ⟨_, rfl⟩

-- The chain lets the allow go on exactly when it proceeds.
theorem writeGrant_ok_iff (env : AnswerEnv) (terms : AccessGrantTerms) (l : Ledger) :
    (∃ out, (writeGrant env terms l).1 = .ok out) ↔ Proceeds env terms l := by
  unfold writeGrant Proceeds
  cases hlink : env.onChain with
  | none => simp
  | some link =>
      have hwrites : link.writes = true := (Option.filter_eq_some_iff.mp hlink).2
      simp only [ChainLink.write, hwrites, Bool.not_true, Bool.false_eq_true, if_false]
      cases env.chain.submit ((l.waitingBumps env.chain.readIo).filterMap decodeBump ++
          [.grant terms]) with
      | ok tx => simp
      | error e =>
          by_cases hsmart : env.smart = true <;> simp [hsmart]

theorem message_isSome_iff : (r.message L pending decision env l).isSome = true ↔
    Proceeds env r.terms l ∧ ∃ bytes, r.terms.toCbor L = .ok bytes := by
  rw [← writeGrant_ok_iff]
  unfold PreparedAllow.message
  rcases (writeGrant env r.terms l).1 with e | ⟨tx, stillPending⟩
  · simp
  · rcases r.terms.toCbor L with e | bytes <;> simp

-- The message is what an allow sends.
theorem finish_sent : (r.finish L pending decision env l).sent =
    match env.relay with
    | .error _ => []
    | .ok () => ((r.message L pending decision env l).map fun message =>
        ⟨pending.request, some r.terms, message⟩).toList := by
  unfold PreparedAllow.finish PreparedAllow.message sendGrant
  rcases writeGrant env r.terms l with ⟨e | ⟨tx, stillPending⟩, l'⟩
  · cases env.relay <;> rfl
  · rcases r.terms.toCbor L with e | bytes <;> cases env.relay <;> rfl

theorem holds_iff {grantId : FixedBytes 32} :
    l.Holds grantId ↔ ∃ grant, l.grants.lookup (hexEncode grantId.bytes) = some grant := Iff.rfl

theorem Ledger.SameGrants.holds_iff (h : l.SameGrants l') {grantId : FixedBytes 32} :
    l'.Holds grantId ↔ l.Holds grantId := by
  rw [Agent.holds_iff, Agent.holds_iff, show l'.grants = l.grants from h]

theorem recordGrant_holds {io : LedgerIo} {grant : Grant} {grantId : FixedBytes 32}
    (hid : grant.grantId = hexEncode grantId.bytes) :
    (l.recordGrant io grant).2.Holds grantId ↔ io = .sound ∨ l.Holds grantId := by
  rcases hrecord : l.recordGrant io grant with ⟨e | _, l'⟩
  · have hio : io ≠ .sound := by
      rintro rfl
      cases hrecord
    rw [Ledger.update_keeps hrecord]
    simp [hio]
  · obtain ⟨hio, hchange⟩ := Ledger.update_eq_ok.mp hrecord
    cases hchange
    simp [holds_iff, Ledger.lookup_putGrant, hid, hio]

-- What a finished allow leaves on record: the approval, if its message was acknowledged and the
-- record could be written, and whatever was there before.
theorem finish_holds : (r.finish L pending decision env l).ledger.Holds (r.grantId L) ↔
    (r.message L pending decision env l).isSome = true ∧ env.relay = .ok () ∧ env.recordIo = .sound ∨
      l.Holds (r.grantId L) := by
  have hkeeps := writeGrant_keeps (l := l) env r.terms
  unfold PreparedAllow.finish PreparedAllow.message sendGrant
  rcases hwrite : writeGrant env r.terms l with ⟨e | ⟨tx, stillPending⟩, l'⟩ <;> rw [hwrite] at hkeeps
  · simpa using hkeeps.holds_iff
  · rcases r.terms.toCbor L with e | bytes
    · simpa using hkeeps.holds_iff
    · cases hrelay : env.relay with
      | error e => simpa using hkeeps.holds_iff
      | ok u =>
          simp only [Option.isSome_some, true_and]
          rw [recordGrant_holds rfl, hkeeps.holds_iff]

-- The relay client reports a success exactly when an attempt is acknowledged.
theorem meeting_relay_iff : (env.meeting out).relay = .ok () ↔
    out.signs = true ∧ ComesTo Exchange.acknowledged out.exchanges := by
  rw [← submit_ok_iff]
  unfold AnswerEnv.meeting signAndSubmit
  cases out.signs with
  | false => simp [Except.map]
  | true => cases hresult : (submit out.exchanges).result <;> simp [Except.map, hresult]

theorem made_queued_iff : (∃ x ∈ (signAndSubmit out.signs out.exchanges).made, x.queued = true) ↔
    out.signs = true ∧ ComesTo Exchange.queued out.exchanges := by
  rw [← exists_made_iff]
  unfold signAndSubmit
  cases out.signs <;> simp

-- A grant on record can be pulled back.
theorem revokeNow_held {env : RevokeEnv} {grantId : FixedBytes 32} {grant : Grant} {fid : FixedBytes 32}
    (hgrant : l.grants.lookup (hexEncode grantId.bytes) = some grant)
    (hfid : grant.fid = hexEncode fid.bytes) (hrelay : env.relay = .ok ()) (hread : env.readIo = .sound)
    (hmark : env.markIo = .sound) :
    ∃ marked, (revokeNow (hexEncode grantId.bytes) env l).1 = .ok marked := by
  have hid : grant.grantId = hexEncode grantId.bytes := l.grantKeyed _ _ hgrant
  have hwrite := writeRevoke_keeps (l := l) env grant fid grantId
  simp only [revokeNow, Ledger.grant, hread, LedgerIo.sound, if_true, hgrant, hid, hfid,
    hexDecodeTo_hexEncode, hrelay]
  rcases hchain : writeRevoke env grant fid grantId l with ⟨revokeTx, l'⟩
  rw [hchain] at hwrite
  have hgrant' : l'.grants.lookup (hexEncode grantId.bytes) = some grant := by
    rw [show l'.grants = l.grants from hwrite, hgrant]
  have hmarked : l'.markRevoked env.markIo (hexEncode grantId.bytes) env.now revokeTx = (.ok _, _) :=
    Ledger.markRevoked_eq_ok.mpr ⟨hmark, grant, hgrant', rfl, rfl⟩
  simp only [hmarked]
  exact ⟨_, rfl⟩

end

-- Whatever is given can be pulled back exactly when nothing gets out, or it is acknowledged and
-- written down.
theorem given_revocable_iff (L : Libraries) (pending : PendingRequest) (decision : DecisionArg)
    (owner : OwnerKeys L.toPrimitives) (deployment : Deployment) (env : AnswerEnv) (fs : Fs) (l : Ledger)
    (out : Outside) (hallow : decision ≠ .deny) :
    (∀ r l', prepare L pending decision owner deployment (env.meeting out) fs l = (.ok r, l') →
      r.Given L pending decision (env.meeting out) out l' →
      (answer L pending decision owner deployment (env.meeting out) fs l).ledger.Holds (r.grantId L)) ↔
    ∀ r l', prepare L pending decision owner deployment (env.meeting out) fs l = (.ok r, l') →
      Accounted L r (env.meeting out) out l' := by
  refine forall_congr' fun r => forall_congr' fun l' => forall_congr' fun hprepare => ?_
  rw [answer_of_prepare hallow hprepare, finish_holds, meeting_relay_iff, PreparedAllow.Given,
    message_isSome_iff, made_queued_iff]
  constructor
  · intro h
    by_cases hgiven : (env.meeting out).onChain.isSome = true ∧ out.landed = true ∨
        (Proceeds (env.meeting out) r.terms l' ∧ ∃ bytes, r.terms.toCbor L = .ok bytes) ∧
          out.signs = true ∧ ComesTo Exchange.queued out.exchanges
    · rcases h hgiven with ⟨⟨hchain, hterms⟩, ⟨hsigns, hrelay⟩, hledger⟩ | hheld
      · exact .recorded hchain hterms hsigns hrelay hledger
      · exact .known hheld
    · obtain ⟨hchain, hrelay⟩ := not_or.mp hgiven
      refine .withheld ?_ ?_
      · cases hlink : (env.meeting out).onChain with
        | none => exact .inl rfl
        | some link => exact .inr (by simpa [hlink] using hchain)
      · by_cases hproceeds : Proceeds (env.meeting out) r.terms l'
        · cases hterms : r.terms.toCbor L with
          | error e => exact .inr (.inl ⟨e, rfl⟩)
          | ok bytes =>
              refine .inr (.inr ?_)
              by_cases hsigns : out.signs = true
              · exact .inr fun hqueued => hrelay ⟨⟨hproceeds, bytes, hterms⟩, hsigns, hqueued⟩
              · exact .inl (Bool.eq_false_of_not_eq_true hsigns)
        · exact .inl hproceeds
  · intro h hgiven
    cases h with
    | withheld hchain hrelay =>
        exfalso
        rcases hgiven with ⟨hlink, hlanded⟩ | ⟨⟨hproceeds, bytes, hterms⟩, hsigns, hqueued⟩
        · rcases hchain with hnone | hnot
          · simp [hnone] at hlink
          · simp [hnot] at hlanded
        · rcases hrelay with hstop | ⟨e, herror⟩ | hunsigned | hnever
          · exact hstop hproceeds
          · simp [herror] at hterms
          · simp [hunsigned] at hsigns
          · exact hnever hqueued
    | recorded hchain hterms hsigns hrelay hledger =>
        exact .inl ⟨⟨hchain, hterms⟩, ⟨hsigns, hrelay⟩, hledger⟩
    | known hheld => exact .inr hheld

namespace Reference

-- One endpoint, tried as often as the client's default policy has it.
def meetingIn (exchange : Nat → Exchange) : Outside := ⟨true, attempts 3 [exchange], false⟩

theorem prepare_locked {policy : Policy} {h : Header} {out headerBytes frames : Bytes}
    (s : SealedAs libraries.toPrimitives Core.Reference.input.data
      Core.Reference.owner.sealing.x25519Pk Core.Reference.owner.signing (options policy)
      Core.Reference.draws h out headerBytes frames) (sender : DeviceIdentity libraries)
    (decision : DecisionArg) {pending : PendingRequest} {l : Ledger}
    (hentry : pending.entry = some
      (Entry.fromSeal h.body.fid (libraries.sha256 headerBytes) "a.txt" sealed policy 50))
    (hrequest : pending.request = buildRequest libraries
      ⟨h.body.fid, libraries.sha256 headerBytes, [0x01, 0x02]⟩ sender .edit nonce 100)
    (outside : Outside) :
    ∃ r, prepare libraries pending decision Core.Reference.owner ownerMachine.deployment
      (approving.meeting outside) (disk out) l = (.ok r, { l with grantNonce := l.grantNonce + 1 }) := by
  obtain ⟨wrapped, hwrapped⟩ := @envelope_locked policy h out headerBytes frames s sender
    pending.request hrequest ((termsFor libraries pending.request
      (Entry.fromSeal h.body.fid (libraries.sha256 headerBytes) "a.txt" sealed policy 50)
      decision.permission l.grantNonce 120).structHash libraries)
  exact @prepare_ok libraries pending decision Core.Reference.owner _ _ _ l _ _ hentry
    (by rw [hrequest]; rfl) l.grantNonce rfl [0] rfl (fun _ _ => rfl) wrapped hwrapped

-- A file that was just sealed, and a request about it from another device: no grant is on record.
theorem prepare_sealed (outside : Outside) : ∃ (container : Bytes) (pending : PendingRequest)
    (l : Ledger) (r : PreparedAllow), (∀ grantId, l.grants.lookup grantId = none) ∧
    prepare libraries pending .edit Core.Reference.owner ownerMachine.deployment
      (approving.meeting outside) (disk container) l =
        (.ok r, { l with grantNonce := l.grantNonce + 1 }) := by
  obtain ⟨h, out, headerBytes, frames, -, s⟩ := container_sealed .defaultPolicy
  let l := Ledger.empty.putFile
    (Entry.fromSeal h.body.fid (libraries.sha256 headerBytes) "a.txt" sealed .defaultPolicy 50)
  let pending := fileRequest .sound (buildRequest libraries
    ⟨h.body.fid, libraries.sha256 headerBytes, [0x01, 0x02]⟩ device .edit nonce 100) l
  obtain ⟨r, hprepare⟩ := @prepare_locked .defaultPolicy h out headerBytes frames s device .edit pending l
    (AList.lookup_insert _) rfl outside
  exact ⟨out, pending, l, r, fun _ => rfl, hprepare⟩

-- The allow proceeds, as there is no chain to stop it.
theorem message_approving {pending : PendingRequest} {decision : DecisionArg} {r : PreparedAllow}
    (outside : Outside) (l : Ledger) :
    (r.message libraries pending decision (approving.meeting outside) l).isSome = true :=
  message_isSome_iff.mpr ⟨fun h => (by cases h), _, toCbor_ok r.terms⟩

-- The relay acknowledges the first attempt.
theorem given_revocable_acknowledged : ∃ (container : Bytes) (pending : PendingRequest) (l l' : Ledger)
    (r : PreparedAllow),
    let outside := meetingIn fun _ => ⟨true, .ack ⟨true, some (.replicate 16 3), none⟩⟩
    prepare libraries pending .edit Core.Reference.owner ownerMachine.deployment
      (approving.meeting outside) (disk container) l = (.ok r, l') ∧
    r.Given libraries pending .edit (approving.meeting outside) outside l' ∧
    (Agent.answer libraries pending .edit Core.Reference.owner ownerMachine.deployment
      (approving.meeting outside) (disk container) l).ledger.Holds (r.grantId libraries) := by
  let outside := meetingIn fun _ => ⟨true, .ack ⟨true, some (.replicate 16 3), none⟩⟩
  obtain ⟨container, pending, l, r, -, hprepare⟩ := prepare_sealed outside
  have hgiven : r.Given libraries pending .edit (approving.meeting outside) outside
      { l with grantNonce := l.grantNonce + 1 } :=
    .inr ⟨message_approving outside _, _, List.mem_singleton_self _, rfl⟩
  refine ⟨container, pending, l, _, r, hprepare, hgiven, ?_⟩
  refine (given_revocable_iff libraries pending .edit Core.Reference.owner ownerMachine.deployment
    approving (disk container) l outside (by decide)).mpr (fun r' l' _ => ?_) r _ hprepare hgiven
  exact .recorded (fun h => (by cases h)) ⟨_, toCbor_ok r'.terms⟩ rfl
    ⟨[], _, _, rfl, by simp, rfl⟩ rfl

-- The relay queues the first attempt, and its response is lost; the other attempts do not reach it.
theorem given_not_revocable : ∃ (container : Bytes) (pending : PendingRequest) (l l' : Ledger)
    (r : PreparedAllow),
    let outside := meetingIn fun n => ⟨n = 0, .lost⟩
    prepare libraries pending .edit Core.Reference.owner ownerMachine.deployment
      (approving.meeting outside) (disk container) l = (.ok r, l') ∧
    r.Given libraries pending .edit (approving.meeting outside) outside l' ∧
    ¬(Agent.answer libraries pending .edit Core.Reference.owner ownerMachine.deployment
      (approving.meeting outside) (disk container) l).ledger.Holds (r.grantId libraries) := by
  let outside := meetingIn fun n => ⟨n = 0, .lost⟩
  obtain ⟨container, pending, l, r, hgrants, hprepare⟩ := prepare_sealed outside
  refine ⟨container, pending, l, _, r, hprepare, ?_, ?_⟩
  · exact .inr ⟨message_approving outside _, ⟨true, .lost⟩, by decide, rfl⟩
  · rw [answer_of_prepare (by decide) hprepare, finish_holds]
    rintro (⟨-, hrelay, -⟩ | ⟨grant, hgrant⟩)
    · cases hrelay
    · cases (hgrants _).symm.trans hgrant

end Reference

end Zbacs.Agent
