import Zbacs.Agent.Approve
import Zbacs.Core.Container.Opening
import Zbacs.Proto.Signing

namespace Zbacs.Agent

open Zbacs.Lib Zbacs.Core Zbacs.Proto

variable {L : Libraries} {l l' : Ledger}

section Inbox

-- A message of this kind whose payload reads as `a`, signed with this key.
structure SignedAs {α : Type} (L : Libraries) (kind : Kind) (codec : Codec α) (key : FixedBytes 32)
    (a : α) (signed : Signed) : Prop where
  kind_eq : signed.kind = kind
  short : signed.payload.length ≤ maxBodyLen
  kid_eq : kidOf L key = signed.kid
  validKey : L.ed25519.validKey key = true
  verified : L.ed25519.verify key
    (signingBytes L signed.kind signed.ts signed.nonce signed.payload) signed.sig = true
  payload : codec.decode signed.payload = .ok a

theorem verifyQueued_eq_ok {α : Type} {kind : Kind} {codec : Codec α} {key : FixedBytes 32} {a : α}
    {signed : Signed} {ts : UInt64} : signed.verifyQueued L kind codec key = .ok (a, ts) ↔
      SignedAs L kind codec key a signed ∧ signed.ts = ts := by
  rw [Signed.verifyQueued, ite_error_eq_ok, ite_error_eq_ok, ite_error_eq_ok, bind_eq_ok]
  constructor
  · rintro ⟨hkind, hlen, hkid, ⟨⟩, hraw, h⟩
    obtain ⟨hvalid, hverify⟩ := verifyRaw_eq_ok.mp hraw
    split at h
    · cases h
    · rename_i payload hpayload
      cases h
      exact ⟨⟨not_not.mp hkind, Nat.not_lt.mp hlen, not_not.mp hkid, hvalid, hverify, hpayload⟩, rfl⟩
  · rintro ⟨h, rfl⟩
    refine ⟨not_not.mpr h.kind_eq, Nat.not_lt.mpr h.short, not_not.mpr h.kid_eq, (),
      verifyRaw_eq_ok.mpr ⟨h.validKey, h.verified⟩, ?_⟩
    rw [h.payload]
    rfl

-- What a device signs is signed with its key.
theorem signedAs_sign {α : Type} {kind : Kind} {codec : Codec α} (hcodec : codec.RoundTrips)
    (hsign : L.ed25519.Correct) {device : DeviceIdentity L} {a : α} {ts : UInt64}
    {nonce : FixedBytes 16} {signed : Signed} (h : Signed.sign L kind codec device a ts nonce = .ok signed) :
    SignedAs L kind codec device.ed25519Pub a signed ∧ signed.ts = ts := by
  unfold Signed.sign at h
  split at h
  · cases h
  · rename_i body hbody
    split_ifs at h with hlen
    cases h
    exact ⟨⟨rfl, Nat.not_lt.mp hlen, rfl, hsign.validKey_publicKey _, hsign.verify_sign _ _,
      hcodec hbody⟩, rfl⟩

variable {envelope : Proto.Envelope} {account : Bytes} {now : UInt64}

-- What is accepted is signed with the key it carries.
theorem acceptSigned_eq_some {α : Type} {kind : Kind} {codec : Codec α} {keyOf : α → FixedBytes 32}
    {claims : α → Signed → Bool} {a : α} {ts : UInt64} :
    acceptSigned L kind codec keyOf claims envelope = some (a, ts) ↔ envelope.kind = kind ∧
      ∃ signed, Signed.fromBytes L envelope.body = .ok signed ∧ claims a signed = true ∧
        SignedAs L kind codec (keyOf a) a signed ∧ signed.ts = ts := by
  unfold acceptSigned
  constructor
  · intro h
    split_ifs at h with hkind
    split at h
    · cases h
    · rename_i signed hbody
      split at h
      · cases h
      · rename_i claimed hpayload
        split_ifs at h with hclaims
        cases hverify : signed.verifyQueued L kind codec (keyOf claimed) with
        | error e =>
            rw [hverify] at h
            cases h
        | ok verified =>
            rw [hverify] at h
            cases h
            obtain ⟨hsigned, rfl⟩ := verifyQueued_eq_ok.mp hverify
            obtain rfl : claimed = a := Except.ok.inj (hpayload.symm.trans hsigned.payload)
            exact ⟨not_not.mp hkind, signed, hbody, by simpa using hclaims, hsigned, rfl⟩
  · rintro ⟨hkind, signed, hbody, hclaims, hsigned, hts⟩
    have hverify := verifyQueued_eq_ok.mpr ⟨hsigned, hts⟩
    simp [hkind, hbody, hsigned.payload, hclaims, hverify, Except.toOption]

-- A notice for this owner, signed by the key it carries, not from the future and not a day old.
theorem acceptVersion_eq_some {notice : VersionMsg} :
    acceptVersion L envelope account now = some notice ↔ envelope.kind = .version ∧
      ∃ signed, Signed.fromBytes L envelope.body = .ok signed ∧
        SignedAs L .version L.versionCodec notice.ed25519Pub notice signed ∧
        notice.owner = account ∧ isFresh signed.ts now = true := by
  unfold acceptVersion
  constructor
  · intro h
    split at h
    · cases h
    · rename_i claimed ts hclaimed
      split_ifs at h with hrefused
      cases h
      obtain ⟨hkind, signed, hbody, -, hsigned, rfl⟩ := acceptSigned_eq_some.mp hclaimed
      simp only [not_or, not_not, Bool.not_eq_true, Bool.not_eq_false'] at hrefused
      exact ⟨hkind, signed, hbody, hsigned, hrefused⟩
  · rintro ⟨hkind, signed, hbody, hsigned, howner, hfresh⟩
    rw [acceptSigned_eq_some.mpr ⟨hkind, signed, hbody, by simpa using hsigned.kid_eq, hsigned, rfl⟩]
    simp [howner, hfresh]

-- A request for this owner, from the device it names.
theorem acceptRequest_eq_some {request : AccessRequest} :
    acceptRequest L envelope account now = some request ↔ envelope.kind = .req ∧
      ∃ signed, Signed.fromBytes L envelope.body = .ok signed ∧
        SignedAs L .req L.requestCodec request.ed25519Pub request signed ∧
        request.deviceKid = signed.kid ∧ request.owner = account ∧ isFresh signed.ts now = true ∧
        (request.requested = 1 ∨ request.requested = 2) := by
  unfold acceptRequest
  constructor
  · intro h
    split at h
    · cases h
    · rename_i claimed ts hclaimed
      split_ifs at h with howner hfresh hrequested
      cases h
      obtain ⟨hkind, signed, hbody, hclaims, hsigned, rfl⟩ := acceptSigned_eq_some.mp hclaimed
      simp only [decide_eq_true_eq] at hclaims
      refine ⟨hkind, signed, hbody, hsigned, hclaims.2, not_not.mp howner, by simpa using hfresh, ?_⟩
      by_cases hone : request.requested = 1
      · exact .inl hone
      · exact .inr (not_not.mp fun htwo => hrequested ⟨hone, htwo⟩)
  · rintro ⟨hkind, signed, hbody, hsigned, hkid, howner, hfresh, hrequested⟩
    rw [acceptSigned_eq_some.mpr ⟨hkind, signed, hbody, by simp [hkid, hsigned.kid_eq], hsigned, rfl⟩]
    have hknown : ¬(request.requested ≠ 1 ∧ request.requested ≠ 2) := by
      rintro ⟨hone, htwo⟩
      exact hrequested.elim hone htwo
    simp only [howner, hfresh, hknown, ne_eq, not_true_eq_false, if_false, Bool.not_true,
      Bool.false_eq_true]

-- A notice is taken for a grant in the record that is for its file, as the next version of it.
theorem applyVersion_eq_ok {env : NoticeEnv} {notice : VersionMsg} {entry : Entry} :
    applyVersion env notice l = (.ok entry, l') ↔
      (∃ grant, l.grant env.readIo (hexEncode notice.grantId.bytes) = some grant ∧
        grant.fid = hexEncode notice.fid.bytes) ∧
      l.advanceVersion env.writeIo notice.fid (hexEncode notice.prevHeaderHash.bytes)
        (hexEncode notice.headerHash.bytes) notice.ver notice.ownerEnvelope = (.ok entry, l') := by
  unfold applyVersion
  cases hgrant : l.grant env.readIo (hexEncode notice.grantId.bytes) with
  | none => simp
  | some grant =>
      by_cases hfid : grant.fid = hexEncode notice.fid.bytes
      · rcases l.advanceVersion env.writeIo notice.fid (hexEncode notice.prevHeaderHash.bytes)
          (hexEncode notice.headerHash.bytes) notice.ver notice.ownerEnvelope with ⟨e | _, _⟩ <;>
          simp [hfid]
      · simp [hfid]

end Inbox

section Keeps

-- The approvals given are the same.
def Ledger.SameGrants (l l' : Ledger) : Prop := l'.grants = l.grants

theorem update_keeps_grants {α : Type} {io : LedgerIo}
    {change : Ledger → Except LedgerError (α × Ledger)}
    (h : ∀ out l', change l = .ok (out, l') → l.SameGrants l') :
    l.SameGrants (Ledger.update io change l).2 :=
  Ledger.update_invariant l.SameGrants rfl h

theorem nextGrantNonce_keeps (io : LedgerIo) : l.SameGrants (l.nextGrantNonce io).2 :=
  update_keeps_grants (by rintro _ _ ⟨⟩; rfl)

theorem deferBump_keeps (io : LedgerIo) (fid headerHash : String) :
    l.SameGrants (l.deferBump io fid headerHash).2 :=
  update_keeps_grants (by rintro _ _ ⟨⟩; rfl)

theorem clearDeferredBumps_keeps (io : LedgerIo) (landed : List (String × String)) :
    l.SameGrants (l.clearDeferredBumps io landed).2 :=
  update_keeps_grants (by rintro _ _ ⟨⟩; rfl)

theorem record_keeps (io : LedgerIo) (entry : Entry) : l.SameGrants (l.record io entry).2 :=
  update_keeps_grants (by rintro _ _ ⟨⟩; rfl)

theorem advanceVersion_keeps (io : LedgerIo) (fid : FixedBytes 32) (prev next : String)
    (ver : UInt32) (ownerEnvelope : Bytes) :
    l.SameGrants (l.advanceVersion io fid prev next ver ownerEnvelope).2 := by
  refine update_keeps_grants fun _ _ h => ?_
  split at h
  · cases h
  · split_ifs at h
    cases h
    rfl

-- A write to the chain touches the queue of versions only.
theorem write_keeps (link : ChainLink) (env : ChainEnv) (call : Call) :
    l.SameGrants (link.write env call l).2 := by
  unfold ChainLink.write
  split
  · rfl
  · simp only
    split
    · rfl
    · split
      · rfl
      · exact clearDeferredBumps_keeps env.writeIo _

theorem bumpVersion_keeps (link : ChainLink) (env : ChainEnv) (fileId headerHash : FixedBytes 32) :
    l.SameGrants (link.bumpVersion env fileId headerHash l).2 := by
  have hdefer := deferBump_keeps (l := l) env.writeIo (hexEncode fileId.bytes)
    (hexEncode headerHash.bytes)
  unfold ChainLink.bumpVersion
  split
  · rfl
  · split
    · split <;> rename_i hresult <;> rw [hresult] at hdefer <;> exact hdefer
    · rfl

theorem takeNonce_keeps (env : AnswerEnv) : l.SameGrants (takeNonce env l).2 := by
  unfold takeNonce
  split
  · rfl
  · exact nextGrantNonce_keeps env.nonceIo

theorem writeGrant_keeps (env : AnswerEnv) (terms : AccessGrantTerms) :
    l.SameGrants (writeGrant env terms l).2 := by
  unfold writeGrant
  split
  · rfl
  · rename_i link _
    have hwrite := write_keeps (l := l) link env.chain (.grant terms)
    split <;> rename_i hresult <;> rw [hresult] at hwrite
    · exact hwrite
    · split <;> exact hwrite

theorem applyVersion_keeps (env : NoticeEnv) (notice : VersionMsg) :
    l.SameGrants (applyVersion env notice l).2 := by
  unfold applyVersion
  split
  · rfl
  · split
    · rfl
    · have hadvance := advanceVersion_keeps (l := l) env.writeIo notice.fid
        (hexEncode notice.prevHeaderHash.bytes) (hexEncode notice.headerHash.bytes) notice.ver
        notice.ownerEnvelope
      split <;> rename_i hresult <;> rw [hresult] at hadvance <;> exact hadvance

theorem takeNotice_keeps (env : NoticeEnv) (notice : VersionMsg) :
    l.SameGrants (takeNotice env notice l) := by
  have happly := applyVersion_keeps (l := l) env notice
  unfold takeNotice
  split <;> rename_i hresult <;> rw [hresult] at happly
  · exact happly
  · split
    · exact happly
    · exact (bumpVersion_keeps _ _ _ _).trans happly

end Keeps

section Answer

variable {pending : PendingRequest} {decision : DecisionArg} {owner : OwnerKeys L.toPrimitives}
  {deployment : Deployment} {env : AnswerEnv} {fs : Fs}

-- A grant for the terms of an answer that went out, in the record.
structure Granting (L : Libraries) (request : AccessRequest) (l : Ledger) (step : AnswerStep) : Prop where
  sent : ∃ terms message grant, step.sent = [⟨request, some terms, message⟩] ∧
    terms.fileId = request.fid ∧ grant.grantId = hexEncode (terms.structHash L).bytes ∧
    grant.fid = hexEncode request.fid.bytes ∧ step.ledger.grants = (l.putGrant grant).grants

-- What an answer does to the approvals: nothing, or one more for what it sent.
theorem sendGrant_cases {entry : Entry} (hentry : pending.entry = some entry)
    {terms : AccessGrantTerms} (hterms : terms.fileId = pending.request.fid) (ownerSig : Option Bytes)
    (envelope : Bytes) (tx : Option (FixedBytes 32)) (stillPending : List StillPending)
    (confirmation : Confirmation) :
    l.SameGrants (sendGrant L pending entry decision terms ownerSig envelope tx stillPending confirmation
        env l).ledger ∨
      Granting L pending.request l (sendGrant L pending entry decision terms ownerSig envelope tx
        stillPending confirmation env l) := by
  unfold sendGrant
  split
  · exact .inl rfl
  · split
    · exact .inl rfl
    · rename_i bytes _ _
      simp only
      rcases hrecord : l.recordGrant env.recordIo _ with ⟨e | _, l'⟩
      · exact .inl (congrArg Ledger.grants (Ledger.update_keeps hrecord))
      · obtain ⟨-, hchange⟩ := Ledger.update_eq_ok.mp hrecord
        cases hchange
        exact .inr ⟨_, _, _, rfl, hterms, rfl, pending.entry_fid entry hentry, rfl⟩

theorem Granting.of_sameGrants {request : AccessRequest} {step : AnswerStep}
    (h : Granting L request l' step) (hsame : l.SameGrants l') : Granting L request l step := by
  obtain ⟨terms, message, grant, hsent, hfile, hid, hfid, hledger⟩ := h.sent
  refine ⟨terms, message, grant, hsent, hfile, hid, hfid, hledger.trans ?_⟩
  simp only [Ledger.putGrant, show l'.grants = l.grants from hsame]

theorem allow_cases {entry : Entry} (hentry : pending.entry = some entry) (grantNonce : UInt64) :
    l.SameGrants (allow L pending entry decision owner deployment env fs grantNonce l).ledger ∨
      Granting L pending.request l
        (allow L pending entry decision owner deployment env fs grantNonce l) := by
  unfold allow
  simp only
  split
  · exact .inl rfl
  · split
    · exact .inl rfl
    · have hwrite := writeGrant_keeps (l := l) env
        (termsFor L pending.request entry decision.permission grantNonce env.now)
      split <;> rename_i hresult <;> rw [hresult] at hwrite
      · exact .inl hwrite
      · rcases sendGrant_cases hentry (show (termsFor L pending.request entry decision.permission
          grantNonce env.now).fileId = _ from rfl) _ _ _ _ _ with hsame | hgranting
        · exact .inl (hsame.trans hwrite)
        · exact .inr (hgranting.of_sameGrants hwrite)

theorem answer_cases : l.SameGrants (answer L pending decision owner deployment env fs l).ledger ∨
    Granting L pending.request l (answer L pending decision owner deployment env fs l) := by
  unfold answer
  split
  · unfold refuse
    simp only
    split <;> exact .inl rfl
  · split
    · exact .inl rfl
    · rename_i entry hentry
      split
      · exact .inl rfl
      · have hnonce := takeNonce_keeps (l := l) env
        split <;> rename_i hresult <;> rw [hresult] at hnonce
        · exact .inl hnonce
        · rcases allow_cases hentry _ with hsame | hgranting
          · exact .inl (hsame.trans hnonce)
          · exact .inr (hgranting.of_sameGrants hnonce)

-- A machine without a link, a signer and a relay that do their part: the approval goes out and
-- is remembered.
theorem answer_ok {entry : Entry} (hentry : pending.entry = some entry) (hallow : decision ≠ .deny)
    (hversion : entry.headerHash = hexEncode pending.request.headerHash.bytes)
    (hlink : env.link = none) {sig : Bytes} (hsign : ∀ digest how, env.sign digest how = .ok sig)
    (hrelay : env.relay = .ok ()) (hnonce : env.nonceIo = .sound) (hrecord : env.recordIo = .sound)
    {terms : AccessGrantTerms}
    (hterms : terms = termsFor L pending.request entry decision.permission l.grantNonce env.now)
    {envelope bytes : Bytes} (henvelope : envelopeFor L entry pending.request owner (terms.structHash L)
      env.seed env.offer fs = .ok envelope) (hbytes : terms.toCbor L = .ok bytes) :
    ∃ grant answered message,
      answer L pending decision owner deployment env fs l =
        ⟨.ok answered, Ledger.putGrant { l with grantNonce := l.grantNonce + 1 } grant,
          [⟨pending.request, some terms, message⟩]⟩ ∧
      grant.grantId = hexEncode (terms.structHash L).bytes ∧ grant.fid = entry.fid ∧
      grant.permission = decision.permission ∧ grant.expiry = terms.expiry ∧
      grant.revokedAt = none ∧ grant.txHash = none := by
  subst hterms
  have hlocal : takeNonce env l = (.ok l.grantNonce, { l with grantNonce := l.grantNonce + 1 }) := by
    simp [takeNonce, AnswerEnv.onChain, hlink, hnonce, Ledger.nextGrantNonce, Ledger.update,
      LedgerIo.sound]
  simp only [answer, hallow, hentry, hversion, hlocal, allow, AnswerEnv.smart, AnswerEnv.onChain, hlink,
    hsign, henvelope, writeGrant, sendGrant, hbytes, hrelay, hrecord, Ledger.recordGrant, Ledger.update,
    LedgerIo.sound, ne_eq, not_true_eq_false, if_false, Option.filter_none, Option.any_none,
    Bool.false_eq_true, Except.map, Bool.not_true, if_true, Option.map_none]
  exact ⟨_, _, _, rfl, rfl, rfl, rfl, rfl, rfl, rfl⟩

end Answer

section Wrap

variable {request : AccessRequest} {owner : OwnerKeys L.toPrimitives}

-- A DEK is wrapped for any valid key, and comes out with the grant's id.
theorem rewrap_ok (hP : L.toPrimitives.Lawful) {request : AccessRequest}
    (hpk : L.hpke.ValidKey request.x25519Pub.bytes) (dek : Dek)
    (grantId : FixedBytes 32) (seed : Bytes) :
    ∃ bytes wrapped, rewrap L request dek grantId seed = .ok bytes ∧
      L.envelopeCodec.decode bytes = .ok wrapped ∧
      ∀ device : DeviceKeys L.toPrimitives, device.x25519Pk = request.x25519Pub →
        wrapped.openDek device grantId.bytes = .ok dek := by
  obtain ⟨wrapped, hseal, -⟩ := Envelope.sealDek_ok hP request.x25519Pub.bytes dek grantId.bytes seed hpk
  obtain ⟨bytes, hencode, -⟩ := sealDek_encodes hP hseal
  refine ⟨bytes, wrapped, ?_, hP.envelopeCodec hencode, ?_⟩
  · simp only [rewrap, hseal, hencode, Except.mapError]
  · intro device hdevice
    rw [← hdevice] at hseal
    exact Envelope.openDek_sealDek hP hseal

-- The stored envelope of the version asked for opens, under the file's id.
theorem storedKey_eq_ok {entry : Entry} {fid : FixedBytes 32} (hfid : entry.fid = hexEncode fid.bytes)
    {stored : Bytes} {dek : Dek} : storedKey L entry stored request owner = .ok dek ↔
      entry.headerHash = hexEncode request.headerHash.bytes ∧ ∃ mine,
        L.envelopeCodec.decode stored = .ok mine ∧ mine.openDek owner.sealing fid.bytes = .ok dek := by
  unfold storedKey
  rw [hfid, hexDecodeTo_hexEncode]
  by_cases hversion : entry.headerHash = hexEncode request.headerHash.bytes
  · cases hdecode : L.envelopeCodec.decode stored with
    | error e => simp [hversion]
    | ok mine => cases hopen : mine.openDek owner.sealing fid.bytes <;>
        simp [hversion, hopen, Except.mapError]
  · simp [hversion]

variable {plaintext out headerBytes frames : Bytes} {author : SigningKeys} {opts : SealOptions}
  {rng : SealRandom} {h : Header}

-- The owner finds the key in the file it sealed.
theorem diskKey_ok (hP : L.toPrimitives.Lawful)
    (s : SealedAs L.toPrimitives plaintext owner.sealing.x25519Pk author opts rng h out headerBytes
      frames) (hopts : opts.Sealable L.toPrimitives) (halone : opts.extraRecipients = [])
    {entry : Entry} {fs : Fs} (hfile : fs.readFile entry.path = some out)
    (hversion : request.headerHash = L.sha256 headerBytes) (offer : Nat → Nat) :
    diskKey L entry request owner offer fs = .ok rng.dek := by
  have hkeys : owner.sealing.x25519Pk.bytes ∈
      owner.sealing.x25519Pk.bytes :: opts.extraRecipients := List.mem_cons_self
  obtain ⟨mine, seed, hfind, hseal⟩ := (sealEnvelopes_eq_ok s.header.env).find? hkeys (by
    intro pk hpk _
    rw [halone] at hpk
    exact List.mem_singleton.mp hpk)
  have hfound : h.body.env.find? (fun e => e.kid = owner.sealing.keyId) = some mine := hfind
  simp only [diskKey, hfile, s.inspect_eq hP hopts.withinLimits, hversion, hfound, ne_eq,
    not_true_eq_false, if_false, Envelope.openDek_sealDek hP hseal, Except.mapError]

end Wrap

theorem writeRevoke_keeps (env : RevokeEnv) (grant : Grant) (fid id : FixedBytes 32) :
    l.SameGrants (writeRevoke env grant fid id l).2 := by
  unfold writeRevoke
  split
  · rename_i link _ _ _
    have hwrite := write_keeps (l := l) link env.chain (.revoke fid id)
    split <;> rename_i hresult <;> rw [hresult] at hwrite <;> exact hwrite
  · rfl

-- A revoke marks an approval that is there.
theorem revokeNow_cases (grantId : String) (env : RevokeEnv) :
    l.SameGrants (revokeNow grantId env l).2 ∨
      ∃ grant grant', l.grants.lookup grantId = some grant ∧ grant'.grantId = grant.grantId ∧
        grant'.fid = grant.fid ∧ (revokeNow grantId env l).2.grants = (l.putGrant grant').grants := by
  unfold revokeNow
  split
  · exact .inl rfl
  · split
    · split
      · exact .inl rfl
      · rename_i grant _ _ _ id fid _ _ _ _
        have hwrite := writeRevoke_keeps (l := l) env grant fid id
        rcases hchain : writeRevoke env grant fid id l with ⟨revokeTx, l₁⟩
        rw [hchain] at hwrite
        simp only
        rcases hmark : l₁.markRevoked env.markIo grantId env.now revokeTx with ⟨e | marked, l₂⟩
        · exact .inl ((congrArg Ledger.grants (Ledger.update_keeps hmark)).trans hwrite)
        · obtain ⟨-, old, hold, hmarked, rfl⟩ := Ledger.markRevoked_eq_ok.mp hmark
          rw [show l₁.grants = l.grants from hwrite] at hold
          refine .inr ⟨old, marked, hold, by rw [hmarked], by rw [hmarked], ?_⟩
          simp only [Ledger.putGrant, show l₁.grants = l.grants from hwrite]
    · exact .inl rfl

theorem revokeNow_ok (env : RevokeEnv) {grant : Grant} {grantId : String}
    (hgrant : l.grants.lookup grantId = some grant) {id fid : FixedBytes 32}
    (hid : grant.grantId = hexEncode id.bytes) (hfid : grant.fid = hexEncode fid.bytes)
    (hrelay : env.relay = .ok ()) (hlink : env.link = none) (hread : env.readIo = .sound)
    (hmark : env.markIo = .sound) :
    ∃ marked, revokeNow grantId env l = (.ok marked, l.putGrant marked) ∧
      marked = { grant with
        revokedAt := grant.revokedAt.or (some env.now), revokeTx := grant.revokeTx } := by
  have hmarked : l.markRevoked env.markIo grantId env.now none =
      (.ok { grant with
        revokedAt := grant.revokedAt.or (some env.now), revokeTx := grant.revokeTx }, _) :=
    Ledger.markRevoked_eq_ok.mpr ⟨hmark, grant, hgrant, by simp, rfl⟩
  refine ⟨_, ?_, rfl⟩
  simp only [revokeNow, Ledger.grant, hread, LedgerIo.sound, if_true, hgrant, hid, hfid,
    hexDecodeTo_hexEncode, hrelay, writeRevoke, hlink, Option.filter_none, hmarked]

end Zbacs.Agent
