import Zbacs.Agent.Approve.Theorems
import Zbacs.Agent.Owner
import Zbacs.Agent.Reference

namespace Zbacs.Agent

open Zbacs.Lib Zbacs.Core Zbacs.Proto

section

variable {L : Libraries} {machine : OwnerMachine L}

namespace OwnerState

-- This machine sent an answer whose terms are this grant's, for this file.
def IssuedFor (L : Libraries) (s : OwnerState) (grantId fid : String) : Prop :=
  ∃ out ∈ s.sent, ∃ terms, out.terms = some terms ∧ terms.fileId = out.request.fid ∧
    grantId = hexEncode (terms.structHash L).bytes ∧ fid = hexEncode terms.fileId.bytes

-- Every approval in the record went out.
def AllIssued (L : Libraries) (s : OwnerState) : Prop :=
  ∀ grantId grant, s.ledger.grants.lookup grantId = some grant → s.IssuedFor L grantId grant.fid

variable {s s' : OwnerState}

theorem IssuedFor.mono {grantId fid : String} (h : s.IssuedFor L grantId fid)
    (hsent : s.sent ⊆ s'.sent) : s'.IssuedFor L grantId fid := by
  obtain ⟨out, hmem, hterms⟩ := h
  exact ⟨out, hsent hmem, hterms⟩

theorem AllIssued.of_sameGrants (h : s.AllIssued L) (hsame : s.ledger.SameGrants s'.ledger)
    (hsent : s.sent ⊆ s'.sent) : s'.AllIssued L := by
  intro grantId grant hgrant
  rw [show s'.ledger.grants = s.ledger.grants from hsame] at hgrant
  exact (h grantId grant hgrant).mono hsent

theorem AllIssued.after_answer (h : s.AllIssued L) {request : AccessRequest} {step : AnswerStep}
    (hstep : Granting L request s.ledger step) (id : String) : (s.answered id step).AllIssued L := by
  obtain ⟨terms, message, granted, hsent, hfile, hid, hfid, hledger⟩ := hstep.sent
  intro grantId grant hgrant
  rw [show (s.answered id step).ledger.grants = _ from hledger, Ledger.lookup_putGrant] at hgrant
  split_ifs at hgrant with hkey
  · cases hgrant
    refine ⟨⟨request, some terms, message⟩, ?_, terms, rfl, hfile, hkey.trans hid, ?_⟩
    · simp [OwnerState.answered, hsent]
    · rw [hfid, hfile]
  · exact (h grantId grant hgrant).mono (List.subset_append_left _ _)

-- One action of the machine keeps it so.
theorem step_allIssued (a : OwnerAction) (h : s.AllIssued L) (hstep : step machine s a = some s') :
    s'.AllIssued L := by
  cases a with
  | lock io fid headerHash name output policy now =>
      cases hstep
      exact h.of_sameGrants (record_keeps io _) (List.Subset.refl _)
  | request envelope now io =>
      simp only [step] at hstep
      split at hstep <;> cases hstep <;> exact h
  | notice envelope now env =>
      simp only [step] at hstep
      split at hstep
      · cases hstep
        exact h
      · cases hstep
        exact h.of_sameGrants (takeNotice_keeps env _) (List.Subset.refl _)
  | decide id decision env fs =>
      simp only [step] at hstep
      split at hstep
      · cases hstep
        exact h
      · rename_i pending _
        cases hstep
        rcases @answer_cases L s.ledger pending decision machine.keys machine.deployment env fs with
          hsame | hgranting
        · exact h.of_sameGrants hsame (List.subset_append_left _ _)
        · exact h.after_answer hgranting id
  | revoke grantId env =>
      cases hstep
      rcases revokeNow_cases (l := s.ledger) grantId env with hsame | ⟨old, marked, hold, hid, hfid, hledger⟩
      · exact h.of_sameGrants hsame (List.Subset.refl _)
      · intro key grant hgrant
        rw [show (s.withLedger _).ledger.grants = _ from hledger, Ledger.lookup_putGrant] at hgrant
        split_ifs at hgrant with hkey
        · cases hgrant
          rw [hid, s.ledger.grantKeyed _ _ hold] at hkey
          rw [hkey, hfid]
          exact h grantId old hold
        · exact h key grant hgrant

theorem run_allIssued {actions : List OwnerAction} (hrun : run (step machine) actions start = some s) :
    s.AllIssued L := by
  refine run_invariant (fun s a s' => step_allIssued a) ?_ hrun
  intro grantId grant hgrant
  simp [start, Ledger.empty] at hgrant

end OwnerState

-- In every state the machine comes to: a notice that is accepted and taken names a grant this
-- machine issued for that file, carries the key it is signed with, and continues the version
-- on record by one.
theorem notice_taken {actions : List OwnerAction} {s : OwnerState}
    (hrun : run (OwnerState.step machine) actions .start = some s) {envelope : Proto.Envelope}
    {now : UInt64} {notice : VersionMsg}
    (haccept : acceptVersion L envelope machine.account now = some notice) {env : NoticeEnv}
    {entry : Entry} {l : Ledger} (happly : applyVersion env notice s.ledger = (.ok entry, l)) :
    (∃ out ∈ s.sent, ∃ terms, out.terms = some terms ∧ terms.structHash L = notice.grantId ∧
      terms.fileId = notice.fid ∧ out.request.fid = notice.fid) ∧
    (∃ signed, Signed.fromBytes L envelope.body = .ok signed ∧
      SignedAs L .version L.versionCodec notice.ed25519Pub notice signed ∧
      isFresh signed.ts now = true) ∧
    notice.owner = machine.account ∧
    ∃ old, s.ledger.files.lookup (hexEncode notice.fid.bytes) = some old ∧
      old.headerHash = hexEncode notice.prevHeaderHash.bytes ∧ notice.ver = old.ver + 1 := by
  obtain ⟨-, signed, hbody, hsigned, howner, hfresh⟩ := acceptVersion_eq_some.mp haccept
  obtain ⟨⟨grant, hgrant, hfid⟩, hadvance⟩ := applyVersion_eq_ok.mp happly
  obtain ⟨-, old, hold, hprev, hver, -⟩ := Ledger.advanceVersion_eq_ok.mp hadvance
  unfold Ledger.grant at hgrant
  split_ifs at hgrant
  obtain ⟨out, hmem, terms, hterms, hfile, hid, hfid'⟩ := OwnerState.run_allIssued hrun _ _ hgrant
  have hgrantId : terms.structHash L = notice.grantId :=
    (FixedBytes.ext (hexEncode_injective hid)).symm
  have hfileId : terms.fileId = notice.fid := by
    rw [hfid] at hfid'
    exact (FixedBytes.ext (hexEncode_injective hfid')).symm
  exact ⟨⟨out, hmem, terms, hterms, hgrantId, hfileId, hfile.symm.trans hfileId⟩,
    ⟨signed, hbody, hsigned, hfresh⟩, howner, old, hold, hprev, hver⟩

end

namespace Reference

-- The owner of the reference file, and a device that nobody asked for anything.
def ownerMachine : OwnerMachine libraries :=
  ⟨[0x01, 0x02], Core.Reference.owner, ⟨31337, .replicate 20 0xdc⟩⟩

def stranger : DeviceIdentity libraries :=
  ⟨.fromSecret (.replicate 32 0x41), ⟨.replicate 32 0x42⟩⟩

def offline : ChainEnv := ⟨fun _ => .error .unreachable, .sound, .sound⟩

def approving : AnswerEnv :=
  { now := 120
    link := none
    chainNonce := none
    chain := offline
    deviceSetting := .notRequired
    policy := .default
    recent := []
    sign := fun _ _ => .ok [0]
    relay := .ok ()
    seed := [9]
    offer := fun _ => 0
    nonceIo := .sound
    recordIo := .sound }

def revoking : RevokeEnv := ⟨200, .ok (), none, offline, .sound, .sound⟩

def noticing : NoticeEnv := ⟨.sound, .sound, none, offline⟩

-- Anybody can sign a notice with a key of their own.
theorem acceptVersion_signed (sender : DeviceIdentity libraries) {notice : VersionMsg}
    (hkey : notice.ed25519Pub = sender.ed25519Pub)
    (hsize : notice.owner.length + notice.ownerEnvelope.length ≤ 1000) {now : UInt64}
    (hfresh : isFresh now now = true) :
    ∃ envelope, acceptVersion libraries envelope notice.owner now = some notice := by
  have hwire := versionWire_size notice
  obtain ⟨signed, hsign, hbody⟩ := Proto.Reference.sign_ok (w := versionWire) (a := notice) (by omega)
    .version sender now nonce
  obtain ⟨hsigned, hts⟩ := signedAs_sign versionWire.codec_roundTrips Core.Reference.ed25519_correct
    hsign
  rw [← hkey] at hsigned
  exact ⟨⟨.replicate 16 0, .version, signedWire.put signed, now⟩, acceptVersion_eq_some.mpr
    ⟨rfl, signed, hbody, hsigned, rfl, by rw [hts]; exact hfresh⟩⟩

-- A device asks.
theorem acceptRequest_signed (sender : DeviceIdentity libraries) {target : Target}
    (howner : target.owner = [0x01, 0x02]) :
    ∃ envelope, acceptRequest libraries envelope [0x01, 0x02] 100 =
      some (buildRequest libraries target sender .edit nonce 100) := by
  let request := buildRequest libraries target sender .edit nonce 100
  have hwire := requestWire_size request
  have hhint : (request.hint.getD []).length = 0 := rfl
  have hlen : request.owner.length = 2 := congrArg List.length howner
  obtain ⟨signed, hsign, hbody⟩ := Proto.Reference.sign_ok (w := requestWire) (a := request) (by omega)
    .req sender 100 nonce
  obtain ⟨hsigned, hts⟩ := signedAs_sign requestWire.codec_roundTrips Core.Reference.ed25519_correct
    hsign
  exact ⟨⟨.replicate 16 0, .req, signedWire.put signed, 100⟩, acceptRequest_eq_some.mpr
    ⟨rfl, signed, hbody, hsigned, hsigned.kid_eq, howner, by rw [hts]; decide, .inr rfl⟩⟩

-- What the run below comes to: the file is on record and one approval of it went out.
structure Approved (decision : DecisionArg) (h : Header) (headerHash : HeaderHash) (policy : Policy)
    (terms : AccessGrantTerms) (grant : Grant) (s : OwnerState) : Prop where
  file : s.ledger.files.lookup (hexEncode h.body.fid.bytes) =
    some (Entry.fromSeal h.body.fid headerHash "a.txt" sealed policy 50)
  recorded : s.ledger.grants.lookup (hexEncode (terms.structHash libraries).bytes) = some grant
  grantId : grant.grantId = hexEncode (terms.structHash libraries).bytes
  fid : grant.fid = hexEncode h.body.fid.bytes
  permission : grant.permission = decision.permission
  expiry : grant.expiry = 120 + max policy.ttl.toUInt64 60
  active : grant.revokedAt = none
  sent : ∃ out, s.sent = [out] ∧ out.request.ed25519Pub = device.ed25519Pub ∧ out.terms = some terms

-- The owner finds the key of the file that was just locked, and wraps it for the device that asks.
theorem envelope_locked {policy : Policy} {h : Header} {out headerBytes frames : Bytes}
    (s : SealedAs libraries.toPrimitives Core.Reference.input.data
      Core.Reference.owner.sealing.x25519Pk Core.Reference.owner.signing (options policy)
      Core.Reference.draws h out headerBytes frames) (sender : DeviceIdentity libraries)
    {request : AccessRequest} (hrequest : request = buildRequest libraries
      ⟨h.body.fid, libraries.sha256 headerBytes, [0x01, 0x02]⟩ sender .edit nonce 100)
    (grantId : FixedBytes 32) :
    ∃ wrapped, envelopeFor libraries
      (Entry.fromSeal h.body.fid (libraries.sha256 headerBytes) "a.txt" sealed policy 50) request
      Core.Reference.owner grantId [9] (fun _ => 0) (disk out) = .ok wrapped := by
  have hkey : diskKey libraries
      (Entry.fromSeal h.body.fid (libraries.sha256 headerBytes) "a.txt" sealed policy 50) request
      Core.Reference.owner (fun _ => 0) (disk out) = .ok Core.Reference.draws.dek :=
    diskKey_ok libraries_lawful s (options_sealable policy) rfl (readFile_disk out)
      (by rw [hrequest]; rfl) _
  obtain ⟨wrapped, _, hwrap, -⟩ := @rewrap_ok libraries libraries_lawful request
    (by rw [hrequest]; exact sender.keys.validKey) Core.Reference.draws.dek grantId [9]
  refine ⟨wrapped, ?_⟩
  have hnone : (Entry.fromSeal h.body.fid (libraries.sha256 headerBytes) "a.txt" sealed policy
      50).ownerEnvelope = none := rfl
  simp only [envelopeFor, hnone, hkey]
  exact hwrap

theorem toCbor_ok (terms : AccessGrantTerms) : terms.toCbor libraries = .ok (termsWire.put terms) := by
  rw [AccessGrantTerms.toCbor, show libraries.termsCodec = termsWire.codec from rfl,
    termsWire.encode_put ((termsWire_size terms).trans_lt (by decide)), Except.mapError]

-- A device asks for the file that was just locked, and the owner allows it.
theorem answer_locked {policy : Policy} {h : Header} {out headerBytes frames : Bytes}
    (s : SealedAs libraries.toPrimitives Core.Reference.input.data
      Core.Reference.owner.sealing.x25519Pk Core.Reference.owner.signing (options policy)
      Core.Reference.draws h out headerBytes frames) (sender : DeviceIdentity libraries)
    {decision : DecisionArg} (hallow : decision ≠ .deny) {pending : PendingRequest} {l : Ledger}
    (hentry : pending.entry = some
      (Entry.fromSeal h.body.fid (libraries.sha256 headerBytes) "a.txt" sealed policy 50))
    (hrequest : pending.request = buildRequest libraries
      ⟨h.body.fid, libraries.sha256 headerBytes, [0x01, 0x02]⟩ sender .edit nonce 100) :
    ∃ terms grant answered message,
      Agent.answer libraries pending decision Core.Reference.owner ownerMachine.deployment approving
        (disk out) l = ⟨.ok answered, Ledger.putGrant { l with grantNonce := l.grantNonce + 1 } grant,
          [⟨pending.request, some terms, message⟩]⟩ ∧
      terms.expiry = 120 + max policy.ttl.toUInt64 60 ∧
      grant.grantId = hexEncode (terms.structHash libraries).bytes ∧
      grant.fid = hexEncode h.body.fid.bytes ∧ grant.permission = decision.permission ∧
      grant.expiry = terms.expiry ∧ grant.revokedAt = none ∧ grant.txHash = none := by
  let entry := Entry.fromSeal h.body.fid (libraries.sha256 headerBytes) "a.txt" sealed policy 50
  let terms := termsFor libraries pending.request entry decision.permission l.grantNonce 120
  have hversion : entry.headerHash = hexEncode pending.request.headerHash.bytes := by
    rw [hrequest]
    rfl
  obtain ⟨wrapped, henvelope⟩ := envelope_locked s sender hrequest (terms.structHash libraries)
  obtain ⟨grant, answered, message, hanswer, hgrant⟩ :=
    @answer_ok libraries l pending decision Core.Reference.owner ownerMachine.deployment approving
      (disk out) entry hentry hallow hversion rfl [0] (fun _ _ => rfl) rfl rfl rfl terms rfl wrapped _
      henvelope (toCbor_ok terms)
  exact ⟨terms, grant, answered, message, hanswer, rfl, hgrant⟩

-- The file is locked, the device asks for it, the owner allows it.
theorem run_approved {policy : Policy} {h : Header} {out headerBytes frames : Bytes}
    (s : SealedAs libraries.toPrimitives Core.Reference.input.data
      Core.Reference.owner.sealing.x25519Pk Core.Reference.owner.signing (options policy)
      Core.Reference.draws h out headerBytes frames) {decision : DecisionArg}
    (hallow : decision ≠ .deny) :
    ∃ actions st terms grant, run (OwnerState.step ownerMachine) actions .start = some st ∧
      Approved decision h (libraries.sha256 headerBytes) policy terms grant st := by
  let target : Target := ⟨h.body.fid, libraries.sha256 headerBytes, [0x01, 0x02]⟩
  let request := buildRequest libraries target device .edit nonce 100
  let entry := Entry.fromSeal h.body.fid (libraries.sha256 headerBytes) "a.txt" sealed policy 50
  let l := Ledger.empty.putFile entry
  obtain ⟨envelope, haccept⟩ := acceptRequest_signed device (show target.owner = _ from rfl)
  have hfind : l.files.lookup (hexEncode h.body.fid.bytes) = some entry := AList.lookup_insert _
  let pending := fileRequest .sound request l
  let filed : OwnerState := OwnerState.file ⟨l, ∅, []⟩ pending
  have hpending : filed.pending.lookup (hexEncode nonce.bytes) = some pending := AList.lookup_insert _
  obtain ⟨terms, grant, answered, message, hanswer, hends, hid, hfid, hpermission, hexpiry, hactive, -⟩ :=
    @answer_locked policy h out headerBytes frames s device decision hallow pending l hfind rfl
  have hlock : OwnerState.step ownerMachine .start (.lock .sound h.body.fid
      (libraries.sha256 headerBytes) "a.txt" sealed policy 50) = some ⟨l, ∅, []⟩ := rfl
  have hask : OwnerState.step ownerMachine ⟨l, ∅, []⟩ (.request envelope 100 .sound) = some filed := by
    rw [OwnerState.step, show ownerMachine.account = [0x01, 0x02] from rfl, haccept]
  have hdecide : OwnerState.step ownerMachine filed
      (.decide (hexEncode nonce.bytes) decision approving (disk out)) =
        some (filed.answered (hexEncode nonce.bytes) (Agent.answer libraries pending decision
          Core.Reference.owner ownerMachine.deployment approving (disk out) l)) := by
    rw [OwnerState.step, hpending]
    rfl
  rw [hanswer] at hdecide
  refine ⟨[_, _, _], _, terms, grant, run_cons_eq_some.mpr ⟨_, hlock, run_cons_eq_some.mpr ⟨_, hask,
    run_cons_eq_some.mpr ⟨_, hdecide, rfl⟩⟩⟩, ?_⟩
  exact
    { file := hfind
      recorded := by
        rw [← hid]
        exact AList.lookup_insert _
      grantId := hid
      fid := hfid
      permission := hpermission
      expiry := hexpiry.trans hends
      active := hactive
      sent := ⟨_, rfl, rfl, rfl⟩ }

-- The next version of the file, as whoever holds this key announces it.
def noticeOf (h : Header) (headerHash : HeaderHash) (terms : AccessGrantTerms) (ownerEnvelope : Bytes)
    (sender : DeviceIdentity libraries) : VersionMsg :=
  { fid := h.body.fid
    owner := [0x01, 0x02]
    prevHeaderHash := headerHash
    headerHash := .replicate 32 0x77
    ver := 2
    grantId := terms.structHash libraries
    ownerEnvelope := ownerEnvelope
    ed25519Pub := sender.ed25519Pub
    ts := 5000 }

theorem applyVersion_noticeOf {h : Header} {headerHash : HeaderHash} {policy : Policy}
    {terms : AccessGrantTerms} {l : Ledger} {grant : Grant} {ownerEnvelope : Bytes}
    {sender : DeviceIdentity libraries}
    (hfile : l.files.lookup (hexEncode h.body.fid.bytes) =
      some (Entry.fromSeal h.body.fid headerHash "a.txt" sealed policy 50))
    (hgrant : l.grants.lookup (hexEncode (terms.structHash libraries).bytes) = some grant)
    (hfid : grant.fid = hexEncode h.body.fid.bytes) :
    ∃ entry l', applyVersion noticing (noticeOf h headerHash terms ownerEnvelope sender) l =
      (.ok entry, l') :=
  ⟨_, _, applyVersion_eq_ok.mpr ⟨⟨grant, hgrant, hfid⟩,
    Ledger.advanceVersion_eq_ok.mpr ⟨rfl, _, hfile, rfl, rfl, rfl, rfl⟩⟩⟩

theorem notice_taken_by_editor : ∃ (actions : List OwnerAction) (s : OwnerState)
    (envelope : Proto.Envelope) (notice : VersionMsg) (entry : Entry) (l : Ledger),
    run (OwnerState.step ownerMachine) actions .start = some s ∧
    acceptVersion libraries envelope ownerMachine.account 5000 = some notice ∧
    applyVersion noticing notice s.ledger = (.ok entry, l) ∧
    ∃ out ∈ s.sent, ∃ terms, out.terms = some terms ∧ terms.structHash libraries = notice.grantId ∧
      terms.fileId = notice.fid ∧ out.request.fid = notice.fid := by
  obtain ⟨h, out, headerBytes, frames, -, s⟩ := container_sealed .defaultPolicy
  obtain ⟨actions, st, terms, grant, hrun, happroved⟩ := run_approved s (show DecisionArg.edit ≠ _ by decide)
  let notice := noticeOf h (libraries.sha256 headerBytes) terms [] device
  obtain ⟨envelope, haccept⟩ := acceptVersion_signed device (show notice.ed25519Pub = _ from rfl)
    (show 2 + 0 ≤ 1000 by decide) (show isFresh 5000 5000 = true by decide)
  obtain ⟨entry, l, happly⟩ := applyVersion_noticeOf happroved.file happroved.recorded happroved.fid
  exact ⟨actions, st, envelope, notice, entry, l, hrun, haccept, happly,
    (notice_taken hrun haccept happly).1⟩

-- Reading was allowed, the approval was pulled back and its time is over. A device it was never
-- given to announces a version under it.
theorem notice_from_stranger : ∃ (actions : List OwnerAction) (s : OwnerState)
    (envelope : Proto.Envelope) (notice : VersionMsg) (entry : Entry) (l : Ledger) (grant : Grant)
    (out : Sent),
    run (OwnerState.step ownerMachine) actions .start = some s ∧
    acceptVersion libraries envelope ownerMachine.account 5000 = some notice ∧
    applyVersion noticing notice s.ledger = (.ok entry, l) ∧
    s.ledger.grants.lookup (hexEncode notice.grantId.bytes) = some grant ∧
    grant.permission = .readOnly ∧ grant.revokedAt = some 200 ∧ grant.expiry ≤ 5000 ∧
    s.sent = [out] ∧ notice.ed25519Pub ≠ out.request.ed25519Pub := by
  obtain ⟨h, out, headerBytes, frames, -, s⟩ := container_sealed .defaultPolicy
  obtain ⟨actions, st, terms, grant, hrun, happroved⟩ :=
    run_approved s (show DecisionArg.readOnly ≠ _ by decide)
  obtain ⟨marked, hrevoke, rfl⟩ := revokeNow_ok revoking happroved.recorded happroved.grantId
    happroved.fid rfl rfl rfl rfl
  let notice := noticeOf h (libraries.sha256 headerBytes) terms [] stranger
  obtain ⟨envelope, haccept⟩ := acceptVersion_signed stranger (show notice.ed25519Pub = _ from rfl)
    (show 2 + 0 ≤ 1000 by decide) (show isFresh 5000 5000 = true by decide)
  obtain ⟨sent, hsent, hdevice, -⟩ := happroved.sent
  let revoked := st.ledger.putGrant { grant with revokedAt := grant.revokedAt.or (some 200) }
  have hmarked : revoked.grants.lookup (hexEncode (terms.structHash libraries).bytes) =
      some { grant with revokedAt := grant.revokedAt.or (some 200) } := by
    rw [Ledger.lookup_putGrant, happroved.grantId, if_pos rfl]
  obtain ⟨entry, l, happly⟩ :=
    applyVersion_noticeOf (l := revoked) happroved.file hmarked happroved.fid
  have hlast : run (OwnerState.step ownerMachine) (actions ++
      [.revoke (hexEncode (terms.structHash libraries).bytes) revoking]) .start =
        some (st.withLedger revoked) := by
    rw [run_append, hrun, Option.bind_some, run, OwnerState.step, hrevoke]
    rfl
  refine ⟨_, _, envelope, notice, entry, l, _, sent, hlast, haccept, happly, hmarked,
    happroved.permission, by rw [happroved.active]; rfl, ?_, hsent, ?_⟩
  · rw [happroved.expiry]
    decide
  · rw [hdevice]
    exact show stranger.ed25519Pub ≠ device.ed25519Pub by decide

end Reference

end Zbacs.Agent
