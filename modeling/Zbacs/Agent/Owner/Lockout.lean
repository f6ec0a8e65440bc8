import Zbacs.Agent.Owner.Notices

namespace Zbacs.Agent

open Zbacs.Lib Zbacs.Core Zbacs.Proto

section

variable {L : Libraries} {owner : OwnerKeys L.toPrimitives}

-- The owner can approve every request for the version on record: the file's key is wrapped for
-- the device that asks.
def Grantable (owner : OwnerKeys L.toPrimitives) (entry : Entry) : Prop :=
  ∀ request : AccessRequest, entry.headerHash = hexEncode request.headerHash.bytes →
    L.hpke.ValidKey request.x25519Pub.bytes → ∀ grantId seed offer fs, ∃ bytes wrapped dek,
      envelopeFor L entry request owner grantId seed offer fs = .ok bytes ∧
      L.envelopeCodec.decode bytes = .ok wrapped ∧
      ∀ device : DeviceKeys L.toPrimitives, device.x25519Pk = request.x25519Pub →
        wrapped.openDek device grantId.bytes = .ok dek

-- The envelope in a notice is one that this owner can open, for that file.
def OpensForOwner (owner : OwnerKeys L.toPrimitives) (notice : VersionMsg) : Prop :=
  ∃ mine dek, L.envelopeCodec.decode notice.ownerEnvelope = .ok mine ∧
    mine.openDek owner.sealing notice.fid.bytes = .ok dek

variable {env : NoticeEnv} {notice : VersionMsg} {l l' : Ledger} {entry : Entry}

-- What the record holds of a file once a notice is taken.
theorem applyVersion_entry (happly : applyVersion env notice l = (.ok entry, l')) :
    entry.fid = hexEncode notice.fid.bytes ∧
      entry.headerHash = hexEncode notice.headerHash.bytes ∧
      entry.ownerEnvelope = some notice.ownerEnvelope := by
  obtain ⟨-, hadvance⟩ := applyVersion_eq_ok.mp happly
  obtain ⟨-, old, hold, -, -, rfl, -⟩ := Ledger.advanceVersion_eq_ok.mp hadvance
  exact ⟨l.fileKeyed (hexEncode notice.fid.bytes) old hold, rfl, rfl⟩

-- A request for the version of the notice, from the owner's own key, is enough to tell.
theorem Grantable.opens (happly : applyVersion env notice l = (.ok entry, l'))
    (h : Grantable owner entry) : OpensForOwner owner notice := by
  obtain ⟨hfid, hversion, hstored⟩ := applyVersion_entry happly
  let request : AccessRequest :=
    { fid := notice.fid
      headerHash := notice.headerHash
      owner := notice.owner
      deviceKid := .replicate 16 0
      x25519Pub := owner.sealing.x25519Pk
      ed25519Pub := notice.ed25519Pub
      requested := 1
      nonce := .replicate 16 0
      hint := none
      ts := 0 }
  obtain ⟨bytes, -, -, hok, -⟩ := h request hversion owner.sealing.validKey (.replicate 32 0) []
    (fun _ => 0) .empty
  simp only [envelopeFor, hstored] at hok
  split at hok
  · cases hok
  · rename_i dek hkey
    obtain ⟨-, mine, hdecode, hopen⟩ := (storedKey_eq_ok hfid).mp hkey
    exact ⟨mine, dek, hdecode, hopen⟩

theorem OpensForOwner.grantable (hP : L.toPrimitives.Lawful)
    (happly : applyVersion env notice l = (.ok entry, l')) (h : OpensForOwner owner notice) :
    Grantable owner entry := by
  obtain ⟨hfid, hversion, hstored⟩ := applyVersion_entry happly
  obtain ⟨mine, dek, hdecode, hopen⟩ := h
  intro request hasked hpk grantId seed offer fs
  have hkey : storedKey L entry notice.ownerEnvelope request owner = .ok dek :=
    (storedKey_eq_ok hfid).mpr ⟨hasked, mine, hdecode, hopen⟩
  obtain ⟨bytes, wrapped, hwrap, hbytes, hdevice⟩ := rewrap_ok hP hpk dek grantId seed
  refine ⟨bytes, wrapped, dek, ?_, hbytes, hdevice⟩
  simp only [envelopeFor, hstored, hkey, hwrap]

-- Nothing looks at the envelope when a notice is taken: the owner can go on approving the file
-- exactly if the notice brought an envelope that opens.
theorem grantable_iff (hP : L.toPrimitives.Lawful)
    (happly : applyVersion env notice l = (.ok entry, l')) :
    Grantable owner entry ↔ OpensForOwner owner notice :=
  ⟨Grantable.opens happly, OpensForOwner.grantable hP happly⟩

end

namespace Reference

-- The editor announces a version with its key wrapped for the owner, as `save` does.
theorem grantable_iff_own_envelope : ∃ (actions : List OwnerAction) (s : OwnerState)
    (envelope : Proto.Envelope) (notice : VersionMsg) (entry : Entry) (l : Ledger),
    run (OwnerState.step ownerMachine) actions .start = some s ∧
    acceptVersion libraries envelope ownerMachine.account 5000 = some notice ∧
    applyVersion noticing notice s.ledger = (.ok entry, l) ∧
    OpensForOwner ownerMachine.keys notice ∧ Grantable ownerMachine.keys entry := by
  obtain ⟨h, out, headerBytes, frames, -, s⟩ := container_sealed .defaultPolicy
  obtain ⟨actions, st, terms, grant, hrun, happroved⟩ := run_approved s (show DecisionArg.edit ≠ _ by decide)
  obtain ⟨mine, hseal, -⟩ := Envelope.sealDek_ok libraries_lawful
    Core.Reference.owner.sealing.x25519Pk.bytes (.replicate 32 0x55) h.body.fid.bytes [8]
    Core.Reference.owner.sealing.validKey
  obtain ⟨bytes, hencode, hlen⟩ := sealDek_encodes libraries_lawful hseal
  let notice := noticeOf h (libraries.sha256 headerBytes) terms bytes device
  obtain ⟨envelope, haccept⟩ := acceptVersion_signed device (show notice.ed25519Pub = _ from rfl)
    (show 2 + bytes.length ≤ 1000 by omega) (show isFresh 5000 5000 = true by decide)
  obtain ⟨entry, l, happly⟩ := applyVersion_noticeOf happroved.file happroved.recorded happroved.fid
  have hopens : OpensForOwner ownerMachine.keys notice :=
    ⟨mine, _, libraries_lawful.envelopeCodec hencode, Envelope.openDek_sealDek libraries_lawful hseal⟩
  exact ⟨actions, st, envelope, notice, entry, l, hrun, haccept, happly, hopens,
    (grantable_iff libraries_lawful happly).mpr hopens⟩

-- The editor announces a version with no key at all. It is taken, and no request for the file
-- can be approved from then on.
theorem owner_locked_out : ∃ (actions : List OwnerAction) (s : OwnerState)
    (envelope : Proto.Envelope) (notice : VersionMsg) (entry : Entry) (l : Ledger),
    run (OwnerState.step ownerMachine) actions .start = some s ∧
    acceptVersion libraries envelope ownerMachine.account 5000 = some notice ∧
    applyVersion noticing notice s.ledger = (.ok entry, l) ∧ ¬ Grantable ownerMachine.keys entry := by
  obtain ⟨h, out, headerBytes, frames, -, s⟩ := container_sealed .defaultPolicy
  obtain ⟨actions, st, terms, grant, hrun, happroved⟩ := run_approved s (show DecisionArg.edit ≠ _ by decide)
  let notice := noticeOf h (libraries.sha256 headerBytes) terms [] device
  obtain ⟨envelope, haccept⟩ := acceptVersion_signed device (show notice.ed25519Pub = _ from rfl)
    (show 2 + 0 ≤ 1000 by decide) (show isFresh 5000 5000 = true by decide)
  obtain ⟨entry, l, happly⟩ := applyVersion_noticeOf happroved.file happroved.recorded happroved.fid
  refine ⟨actions, st, envelope, notice, entry, l, hrun, haccept, happly, fun hgrantable => ?_⟩
  obtain ⟨mine, _, hdecode, -⟩ := hgrantable.opens happly
  cases show Except.error _ = Except.ok mine from hdecode

end Reference

end Zbacs.Agent
