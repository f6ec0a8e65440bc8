import Zbacs.Agent.Approve.Revocable
import Zbacs.Agent.Sealing.Names
import Zbacs.Agent.Sharing

namespace Zbacs.Agent

open Zbacs.Lib Zbacs.Core Zbacs.Proto Zbacs.Session Zbacs.Agent.Setup

section Messages

variable {L : Libraries} {α : Type} {kind : Kind} {codec : Codec α} {sender : DeviceIdentity L}
  {message : α} {ts : UInt64} {envelope : Proto.Envelope}

-- What a device posts is read as it was signed.
theorem Posted.reads (hL : Carries L) (hcodec : codec.RoundTrips)
    (h : Posted L kind codec sender message ts envelope) :
    ∃ signed, Signed.fromBytes L envelope.body = .ok signed ∧
      SignedAs L kind codec sender.ed25519Pub message signed ∧ signed.ts = ts := by
  obtain ⟨nonce, signed, hsign, hbody⟩ := h.signed
  obtain ⟨hsigned, hts⟩ := signedAs_sign hcodec hL.ed25519 hsign
  refine ⟨signed, ?_, hsigned, hts⟩
  rw [Signed.fromBytes, if_neg (Nat.not_lt.mpr h.short), hL.signedCodec hbody]
  rfl

end Messages

section Request

variable {L : Libraries} {target : Target} {device : DeviceIdentity L} {requested : Permission}
  {nonce : FixedBytes 16} {askedAt ts readAt : UInt64} {envelope : Proto.Envelope}

-- The owner reads the request of a device as it was sent.
theorem acceptRequest_posted (hL : Carries L) (hrequested : requested ≠ .deny)
    (h : Posted L .req L.requestCodec device (buildRequest L target device requested nonce askedAt) ts
      envelope) (hfresh : isFresh ts readAt = true) :
    acceptRequest L envelope target.owner readAt =
      some (buildRequest L target device requested nonce askedAt) := by
  obtain ⟨signed, hread, hsigned, rfl⟩ := h.reads hL hL.requestCodec
  refine acceptRequest_eq_some.mpr ⟨h.kind_eq, signed, hread, hsigned, hsigned.kid_eq, rfl, hfresh, ?_⟩
  cases requested with
  | deny => exact absurd rfl hrequested
  | readOnly => exact .inl rfl
  | edit => exact .inr rfl

-- A copy of a version is asked about as that version.
theorem Version.targetOf_eq {ownerPk : FixedBytes 32} (hP : L.toPrimitives.Lawful) (v : Version L ownerPk)
    {readable : Bool} {offer : Nat → Nat} {sealed : Path} {fs : Fs}
    (hcopy : fs.readFile sealed = some v.container)
    (h : targetOf L.toPrimitives readable offer sealed fs = .ok target) :
    target.fid = v.header.body.fid ∧ target.headerHash = v.hash := by
  obtain ⟨readonly, hthere⟩ := Fs.lookup_of_readFile hcopy
  unfold targetOf at h
  simp only [hthere, v.inspect_eq hP] at h
  split_ifs at h
  cases h
  exact ⟨rfl, rfl⟩

end Request

section Answer

variable {L : Libraries} {owner : OwnerKeys L.toPrimitives} {l l' : Ledger} {fs : Fs}
  {v : Version L owner.sealing.x25519Pk} {entry : Entry} {request : AccessRequest}

-- A wrapped key opens with the keys it was wrapped for.
theorem rewrap_eq_ok (hP : L.toPrimitives.Lawful) {dek : Dek} {grantId : FixedBytes 32} {seed bytes : Bytes}
    (h : rewrap L request dek grantId seed = .ok bytes) :
    ∃ wrapped, L.envelopeCodec.decode bytes = .ok wrapped ∧
      ∀ device : DeviceKeys L.toPrimitives, device.x25519Pk = request.x25519Pub →
        wrapped.openDek device grantId.bytes = .ok dek := by
  unfold rewrap at h
  split at h
  · cases h
  · rename_i wrapped hseal
    cases hencode : L.envelopeCodec.encode wrapped with
    | error e =>
        rw [hencode] at h
        cases h
    | ok encoded =>
        rw [hencode] at h
        cases h
        refine ⟨wrapped, hP.envelopeCodec hencode, fun device hdevice => ?_⟩
        rw [← hdevice] at hseal
        exact Core.Envelope.openDek_sealDek hP hseal

-- The owner wraps the key of the version on record.
theorem Recorded.envelopeFor_eq (hP : L.toPrimitives.Lawful) (h : Recorded owner l fs v entry)
    (hversion : request.headerHash = v.hash) (grantId : FixedBytes 32) (seed : Bytes)
    (offer : Nat → Nat) :
    envelopeFor L entry request owner grantId seed offer fs = rewrap L request v.rng.dek grantId seed := by
  have hfid : entry.fid = hexEncode v.header.body.fid.bytes := l.fileKeyed _ _ h.listed
  unfold envelopeFor
  cases h.key with
  | onDisk hnone hfile =>
      have hkey := diskKey_ok hP v.sealed v.sealable v.alone hfile hversion offer
      simp only [hnone, hkey]
  | stored hsome hdecode hopen =>
      have hkey := (storedKey_eq_ok hfid).mpr ⟨h.hash.trans (by rw [hversion]), _, hdecode, hopen⟩
      simp only [hsome, hkey]

theorem prepare_eq_ok {pending : PendingRequest} {decision : DecisionArg} {deployment : Deployment}
    {env : AnswerEnv} {r : PreparedAllow}
    (h : prepare L pending decision owner deployment env fs l = (.ok r, l')) :
    ∃ nonce, pending.entry = some r.entry ∧
      r.terms = termsFor L pending.request r.entry decision.permission nonce env.now ∧
      envelopeFor L r.entry pending.request owner (r.terms.structHash L) env.seed env.offer fs =
        .ok r.envelope := by
  unfold prepare at h
  split at h
  · cases h
  · rename_i entry hentry
    split at h
    · cases h
    · split at h
      · cases h
      · rename_i nonce l₁ _
        simp only at h
        split at h
        · cases h
        · rename_i ownerSig _
          split at h
          · cases h
          · rename_i envelope henvelope
            cases h
            exact ⟨nonce, hentry, rfl, henvelope⟩

-- A message that brings these terms, with the key of the file.
structure Allows (L : Libraries) (request : AccessRequest) (decision : DecisionArg)
    (terms : AccessGrantTerms) (envelope : Bytes) (message : GrantMsg) : Prop where
  nonce : message.requestNonce = request.nonce
  grant : ∃ bytes, message.grant = some bytes ∧ terms.toCbor L = .ok bytes
  envelope : message.envelope = some envelope
  decision : message.decision = decision.permission.toByte

-- An approval that went through has sent one message: the terms of the entry, and the key wrapped for
-- the device that asked.
theorem answer_eq_ok {pending : PendingRequest} {decision : DecisionArg} {deployment : Deployment}
    {env : AnswerEnv} {answered : Answered} (hallow : decision ≠ .deny)
    (h : (answer L pending decision owner deployment env fs l).result = .ok answered) :
    ∃ entry nonce terms envelope message, (answer L pending decision owner deployment env fs l).sent =
        [⟨pending.request, some terms, message⟩] ∧ pending.entry = some entry ∧
      terms = termsFor L pending.request entry decision.permission nonce env.now ∧
      envelopeFor L entry pending.request owner (terms.structHash L) env.seed env.offer fs = .ok envelope ∧
      Allows L pending.request decision terms envelope message := by
  rw [answer_eq hallow] at h ⊢
  rcases hprepare : prepare L pending decision owner deployment env fs l with ⟨e | r, l₁⟩
  · rw [hprepare] at h
    cases h
  obtain ⟨nonce, hentry, hterms, henvelope⟩ := prepare_eq_ok hprepare
  rw [hprepare] at h
  simp only [PreparedAllow.finish] at h ⊢
  rcases hwrite : writeGrant env r.terms l₁ with ⟨e | ⟨tx, stillPending⟩, l₂⟩
  · rw [hwrite] at h
    cases h
  rw [hwrite] at h
  simp only at h ⊢
  unfold sendGrant at h ⊢
  split at h
  · cases h
  · rename_i bytes hbytes
    split at h
    · cases h
    · exact ⟨r.entry, nonce, r.terms, r.envelope, _, rfl, hentry, hterms, henvelope,
        rfl, ⟨bytes, rfl, hbytes⟩, rfl, rfl⟩

end Answer

section Asking

variable {L : Libraries} {asking : Asking} {sending : Sending} {sentAt : UInt64} {pre : List Poll}
  {poll : Poll} {terms : AccessGrantTerms} {permission : Permission}

-- The round that brings an answer, ahead of anything else that speaks of the request.
structure Brings (L : Libraries) (asking : Asking) (nonce : FixedBytes 16) (poll : Poll)
    (message : GrantMsg) : Prop where
  live : poll.cancelled = false
  inTime : poll.waited < asking.limits.giveUpAfter
  posted : ∃ sender ts before envelope after, Posted L .grant L.grantCodec sender message ts envelope ∧
    poll.inbox.getD [] = before ++ envelope :: after ∧
    ∀ e ∈ before, classify L e nonce asking.target asking.ourKeyHash = .notOurs

-- A wait that is not over ends with the first answer that is taken.
theorem ask_taken {envelope : Option Bytes} {txHash : Option (FixedBytes 32)}
    {session : Zbacs.Session} {effects : List Effect} (hwait : ask L asking sending sentAt pre = none)
    (hlive : poll.cancelled = false) (htime : poll.waited < asking.limits.giveUpAfter)
    (hacc : Accepted L asking sending.nonce poll permission terms envelope txHash)
    (hchain : chainWord L asking poll terms txHash ≠ .invalid)
    (happly : Session.new.apply (.granted permission terms.notBefore terms.expiry terms.maxOpens)
      poll.now = .ok (session, effects)) :
    ∃ asked, ask L asking sending sentAt (pre ++ [poll]) = some asked ∧
      asked.outcome = .granted permission terms.expiry ∧ asked.held = ⟨session, some terms, envelope⟩ := by
  simp only [ask] at hwait ⊢
  split at hwait
  · cases hwait
  · split at hwait
    · cases hwait
    · rename_i hannounced _ hsent
      obtain ⟨nudged, updates, happend⟩ := askLoop_append (Option.map_eq_none_iff.mp hwait)
      simp only [happend, askLoop, hacc.findSome?_settle, hlive, Bool.false_eq_true, if_false,
        if_neg (Nat.not_le.mpr htime), Option.map_some]
      refine ⟨_, rfl, ?_, ?_⟩ <;> simp only [takeGrant, if_neg hchain, happly]

-- The answer to a request, as the device that asked reads it.
theorem Brings.accepted (hL : Carries L) {request : AccessRequest} {decision : DecisionArg}
    (hallow : decision ≠ .deny) {envelope : Bytes} {message : GrantMsg}
    (hmessage : Allows L request decision terms envelope message)
    (h : Brings L asking request.nonce poll message)
    (hfor : TermsFor terms decision.permission request.nonce asking.target asking.ourKeyHash) :
    Accepted L asking request.nonce poll decision.permission terms (some envelope) message.txHash := by
  obtain ⟨sender, ts, before, e, after, hposted, hinbox, hbefore⟩ := h.posted
  obtain ⟨signed, hread, hsigned, -⟩ := hposted.reads hL hL.grantCodec
  obtain ⟨bytes, hgrant, hbytes⟩ := hmessage.grant
  have hterms : AccessGrantTerms.fromCbor L bytes = .ok terms := by
    unfold AccessGrantTerms.toCbor at hbytes
    cases hencode : L.termsCodec.encode terms with
    | error why =>
        rw [hencode] at hbytes
        cases hbytes
    | ok encoded =>
        rw [hencode] at hbytes
        cases hbytes
        rw [AccessGrantTerms.fromCbor, hL.termsCodec hencode]
        rfl
  have hallowed : decision.permission = .readOnly ∨ decision.permission = .edit := by
    cases decision with
    | deny => exact absurd rfl hallow
    | readOnly => exact .inl rfl
    | edit => exact .inr rfl
  refine ⟨before, e, after, hinbox, hbefore, ?_⟩
  rw [← hmessage.envelope]
  exact classify_ok hposted.kind_eq hread hsigned.kind_eq hsigned.payload hmessage.nonce
    hmessage.decision hallowed hgrant hterms hfor

end Asking

-- An open that nothing stands in the way of puts this content into the workspace, under this name.
def OpensAs (L : Libraries) (sealed : Path) (held : Held) (keys : DeviceKeys L.toPrimitives) (disk : Fs)
    (name : String) (content : Bytes) : Prop :=
  ∀ (base : Path) (sessionId : String) (env : OpenEnv), env.Quiet → Workspace.GoodId sessionId →
    Workspace.Room base sessionId disk →
    ∃ mat, (materialise L sealed held keys base sessionId env disk).result = .ok mat ∧ mat.name = name ∧
      (materialise L sealed held keys base sessionId env disk).fs.readFile mat.plain = some content

namespace Reference

open Zbacs.Agent.Setup.Reference

theorem carries : Carries libraries :=
  ⟨signedWire.codec_roundTrips, requestWire.codec_roundTrips, grantWire.codec_roundTrips,
    termsWire.codec_roundTrips, Core.Reference.ed25519_correct⟩

theorem posted_ok {α : Type} {w : Lib.Cbor.Wire α} {a : α} (h : w.size a ≤ 60000) (kind : Kind)
    (sender : DeviceIdentity libraries) (ts : UInt64) :
    ∃ envelope, Posted libraries kind w.codec sender a ts envelope := by
  obtain ⟨signed, hsign, hread⟩ := Proto.Reference.sign_ok h kind sender ts nonce
  have hshort : (signedWire.put signed).length ≤ maxBodyLen := by
    unfold Signed.fromBytes at hread
    split_ifs at hread with hlen
    exact Nat.not_lt.mp hlen
  have hpayload := (signedAs_sign w.codec_roundTrips Core.Reference.ed25519_correct hsign).1.short
  have hsize : signedWire.size signed < 2 ^ 64 :=
    (signedWire_size signed).trans_lt ((Nat.add_le_add_left hpayload _).trans_lt (by decide))
  exact ⟨⟨.replicate 16 0, kind, signedWire.put signed, ts⟩, rfl,
    ⟨nonce, signed, hsign, signedWire.encode_put hsize⟩, hshort⟩

-- The file is locked for reading, and written down.
theorem locked_course : ∃ (l : Ledger) (fs : Fs)
    (v : Version libraries Core.Reference.owner.sealing.x25519Pk) (entry : Entry),
    Course libraries Core.Reference.owner l fs v.container v.content "a.txt" ∧ v.name = "a.txt" ∧
      Recorded (L := libraries) Core.Reference.owner l fs v entry ∧ entry.ttl = 3600 ∧ entry.ver = 1 ∧
      v.header.body.ver = 1 ∧ v.header.body.pol.default = .readOnly := by
  obtain ⟨result, fs, hseal⟩ := sealNow_alone libraries_lawful Core.Reference.owner setUpProfile lockable
  obtain ⟨content, header, container, headerBytes, frames, hlocked⟩ := sealNow_eq_ok libraries_lawful hseal
  let entry := Entry.ofSeal result (lockAlone "a.txt") 50
  have hrecord : Ledger.empty.record .sound entry = (.ok (), Ledger.empty.putFile entry) := rfl
  have hthere : fs.readFile result.output = some container := by
    rw [hlocked.result_eq]
    exact hlocked.written
  refine ⟨_, fs, hlocked.version, entry, .locked hseal hlocked.original hthere hrecord, rfl,
    hlocked.recorded hrecord, rfl, rfl, ?_, ?_⟩
  · have hversion := hlocked.sealed.header.version
    exact (Prod.mk.inj (Except.ok.inj hversion)).2.symm
  · exact congrArg Policy.default hlocked.sealed.header.pol

-- A device with the terms and the key of a version opens its copy of it.
theorem version_opened (v : Version libraries Core.Reference.owner.sealing.x25519Pk)
    (hname : v.name = "a.txt") : ∃ held mat, held.session.permission = some .edit ∧
      held.terms = some (terms ⟨v.header.body.fid, v.hash, v.header.body.own⟩ .edit 1) ∧
      grantKey libraries held device.keys =
        .ok (terms ⟨v.header.body.fid, v.hash, v.header.body.own⟩ .edit 1, v.rng.dek) ∧
      (materialise libraries sealed held device.keys base (sessionIdOf 130 7) (.calm 130)
        (disk v.container)).result = .ok mat ∧ mat.name = "a.txt" ∧ mat.plain = plain := by
  let target : Target := ⟨v.header.body.fid, v.hash, v.header.body.own⟩
  let t := terms target .edit 1
  obtain ⟨bytes, wrapped, -, hdecode, hopens⟩ := @rewrap_ok libraries libraries_lawful
    (buildRequest libraries target device .edit nonce 100) device.keys.validKey v.rng.dek
    (t.structHash libraries) [9]
  let held : Held :=
    ⟨{ Session.new with permission := some .edit, maxOpens := 1, state := .granted }, some t, some bytes⟩
  have hkey : grantKey libraries held device.keys = .ok (t, v.rng.dek) :=
    grantKey_eq_ok.mpr ⟨rfl, bytes, wrapped, rfl, hdecode, hopens device.keys rfl⟩
  have hgood : GoodName v.opts.fileName := by
    rw [show v.opts.fileName = "a.txt" from hname]
    exact goodName .defaultPolicy
  obtain ⟨effects, fs', hopen, -⟩ := materialise_ok libraries_lawful v.sealed v.sealable
    v.short hgood (OpenEnv.calm_quiet 130) (goodId_sessionIdOf 130 7)
    (disk_room v.container _) (readFile_disk _) hkey rfl
    (show held.session.state = .granted from rfl) (.inr (show (0 : UInt16) < 1 by decide))
  refine ⟨held, _, rfl, rfl, hkey, by rw [hopen], hname, ?_⟩
  exact congrArg (base ++ [sessionIdOf 130 7] ++ [·]) hname

-- It writes something else into it and saves, and the owner takes the notice.
theorem edited_course : ∃ (l : Ledger) (fs : Fs)
    (v : Version libraries Core.Reference.owner.sealing.x25519Pk) (entry : Entry),
    Course libraries Core.Reference.owner l fs v.container [6] "a.txt" ∧
      Recorded (L := libraries) Core.Reference.owner l fs v entry ∧ entry.ttl = 3600 ∧
      v.header.body.pol.default = .readOnly := by
  obtain ⟨l, fs, v, entry, hcourse, hname, hrecorded, httl, hentry, hver, hpolicy⟩ := locked_course
  obtain ⟨held, mat, hedit, hterms, hkey, hopen, hmat, hplain⟩ := version_opened v hname
  let t := terms ⟨v.header.body.fid, v.hash, v.header.body.own⟩ .edit 1
  let grant : Grant :=
    ⟨hexEncode (t.structHash libraries).bytes, hexEncode v.header.body.fid.bytes, "a.txt", .edit, 200, 110,
      none, none, none⟩
  have hgiven : Course libraries Core.Reference.owner (l.putGrant grant) fs v.container v.content "a.txt" :=
    .elsewhere hcourse (fun _ _ _ _ => rfl) fun _ hthere => hthere
  let held' : Held := { held with session := { held.session with state := .resealing } }
  let saving := (disk v.container).insert mat.plain (.file [6] false)
  have hne : sealed ≠ mat.plain := by
    rw [hplain]
    decide
  have hfile : saving.readFile sealed = some v.container :=
    (Fs.readFile_congr (Fs.lookup_insert_ne _ hne)).trans (readFile_disk _)
  have hedited : saving.readFile mat.plain = some [6] := Fs.readFile_of_lookup (Fs.lookup_insert_self _ _)
  have htmp : saving.lookup (withExtension sealed "zbacs.tmp") ≠ some .dir := by
    have htmpName : withExtension sealed "zbacs.tmp" = ["home", "a.zbacs.tmp"] := by decide
    have hother : withExtension sealed "zbacs.tmp" ≠ mat.plain := by
      rw [hplain, htmpName]
      decide
    rw [Fs.lookup_insert_ne _ hother, lookup_disk, htmpName, if_neg (by decide), if_neg (by decide)]
    exact (Option.some_ne_none _).symm
  let atSave : SaveEnv := ⟨.calm, Core.Reference.draws, .ok (), 131⟩
  obtain ⟨-, -, -, -, saved, hannounced, -⟩ := save_ok held' device.keys device.signing sealed mat atSave
    saving libraries_lawful v.sealed v.sealable (by rw [hver]; decide)
    Core.Reference.owner.sealing.validKey SealEnv.calm_quiet rfl rfl hkey rfl hfile hedited (by decide) htmp
  have hnames : ∀ terms' dek', grantKey libraries held' device.keys = .ok (terms', dek') →
      decryptName libraries.toPrimitives v.header dek' = .ok mat.name := by
    intro terms' dek' hkey'
    obtain ⟨-, rfl⟩ := Prod.mk.inj (Except.ok.inj (hkey.symm.trans hkey'))
    rw [hmat, ← hname]
    exact v.decryptName_eq libraries_lawful
  obtain ⟨terms', dek', hkey', v', -, hopts, hnext, hnotice⟩ :=
    v.saved_next libraries_lawful hfile hedited hnames hannounced.result
  obtain ⟨rfl, -⟩ := Prod.mk.inj (Except.ok.inj (hkey.symm.trans hkey'))
  -- the notice is for the next version, and names the approval
  obtain ⟨hsame, hnextVer⟩ := Version.follows hopts
  have hfid : saved.notice.fid = v.header.body.fid := hnotice.fid.trans hsame
  have hrecordedGrant : (l.putGrant grant).grants.lookup (hexEncode saved.notice.grantId.bytes) =
      some grant := by
    rw [hnotice.grantId]
    exact AList.lookup_insert _
  obtain ⟨entry', l', htaken, httl'⟩ : ∃ entry' l',
      applyVersion noticing saved.notice (l.putGrant grant) = (.ok entry', l') ∧ entry'.ttl = entry.ttl :=
    ⟨_, _, applyVersion_eq_ok.mpr ⟨⟨grant, hrecordedGrant, by rw [hfid]⟩,
      Ledger.advanceVersion_eq_ok.mpr ⟨rfl, entry, by rw [hfid]; exact hrecorded.listed,
        by rw [hrecorded.hash, hnotice.prev], by rw [hnotice.ver, hnextVer, hentry, hver], rfl, rfl⟩⟩, rfl⟩
  have hcourse' := Course.saved hgiven (readFile_disk _) hopen
    (show held.SameGrant held' from ⟨rfl, rfl, rfl⟩) hfile hedited
    hannounced.result hnext htaken
  rw [hmat] at hcourse'
  refine ⟨l', fs, v', entry', hcourse', .of_notice libraries_lawful hnext hnotice htaken,
    httl'.trans httl, ?_⟩
  rw [v'.sealed.header.pol, hopts]
  exact hpolicy

theorem wrapped_ok (request : AccessRequest) (hpk : libraries.hpke.ValidKey request.x25519Pub.bytes)
    (dek : Dek) (grantId : FixedBytes 32) (seed : Bytes) :
    ∃ bytes, rewrap libraries request dek grantId seed = .ok bytes ∧ bytes.length ≤ 194 := by
  obtain ⟨wrapped, hseal, -⟩ := Core.Envelope.sealDek_ok libraries_lawful request.x25519Pub.bytes dek
    grantId.bytes seed hpk
  obtain ⟨bytes, hencode, hlen⟩ := sealDek_encodes libraries_lawful hseal
  exact ⟨bytes, by simp only [rewrap, hseal, hencode, Except.mapError], hlen⟩

-- A request for the version on record is answered.
theorem answer_recorded {l : Ledger} {fs : Fs} {v : Version libraries Core.Reference.owner.sealing.x25519Pk}
    {entry : Entry} (h : Recorded (L := libraries) Core.Reference.owner l fs v entry)
    (pending : PendingRequest) (hentry : pending.entry = some entry)
    (hhash : pending.request.headerHash = v.hash)
    (hpk : libraries.hpke.ValidKey pending.request.x25519Pub.bytes) : ∃ terms message answered,
      (Agent.answer libraries pending .readOnly Core.Reference.owner ownerMachine.deployment approving fs
        l).result = .ok answered ∧
      (Agent.answer libraries pending .readOnly Core.Reference.owner ownerMachine.deployment approving fs
        l).sent = [⟨pending.request, some terms, message⟩] ∧
      terms.notBefore = 0 ∧ terms.expiry = 120 + max entry.ttl 60 ∧ grantWire.size message ≤ 60000 := by
  have hversion : entry.headerHash = hexEncode pending.request.headerHash.bytes := by
    rw [h.hash, hhash]
  obtain ⟨terms, hterms⟩ : ∃ terms, terms = termsFor libraries pending.request entry
      DecisionArg.readOnly.permission l.grantNonce approving.now := ⟨_, rfl⟩
  obtain ⟨wrapped, hwrap, hsize⟩ :=
    wrapped_ok pending.request hpk v.rng.dek (terms.structHash libraries) approving.seed
  have henvelope := (h.envelopeFor_eq libraries_lawful hhash (terms.structHash libraries) approving.seed
    approving.offer).trans hwrap
  have hlocal : takeNonce approving l = (.ok l.grantNonce, { l with grantNonce := l.grantNonce + 1 }) := rfl
  have hanswer : ∃ answered l', Agent.answer libraries pending .readOnly Core.Reference.owner
      ownerMachine.deployment approving fs l = ⟨.ok answered, l', [⟨pending.request, some terms,
        ⟨pending.request.nonce, some (termsWire.put terms), some [0], some wrapped, none, 1, 120⟩⟩]⟩ := by
    simp only [Agent.answer, reduceCtorEq, if_false, hentry, hversion, hlocal, allow, AnswerEnv.smart,
      AnswerEnv.onChain, show approving.link = none from rfl, Option.any_none, Bool.false_eq_true,
      show ∀ digest how, approving.sign digest how = .ok [0] from fun _ _ => rfl, Except.map,
      ne_eq, not_true_eq_false, Option.filter_none, writeGrant, sendGrant,
      ← hterms, henvelope, toCbor_ok, show approving.relay = .ok () from rfl]
    exact ⟨_, _, rfl⟩
  obtain ⟨answered, l', hanswer⟩ := hanswer
  refine ⟨terms, _, answered, by rw [hanswer], by rw [hanswer], ?_, by rw [hterms]; rfl, ?_⟩
  · rw [hterms]
    exact show saturatingSub 120 notBeforeSlackSecs = 0 by decide
  · have hgrant := grantWire_size ⟨pending.request.nonce, some (termsWire.put terms), some [0], some wrapped,
      none, 1, 120⟩
    have hput := (termsWire.length_put terms).trans (termsWire_size terms)
    simp only [Option.getD_some, List.length_singleton] at hgrant
    omega

end Reference

end Zbacs.Agent
