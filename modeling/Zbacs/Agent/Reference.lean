import Zbacs.Agent.Request.Theorems
import Zbacs.Agent.RunSession.Theorems
import Zbacs.Core.Container.RoundTrip
import Zbacs.Proto.Wire

namespace Zbacs.Agent.Reference

open Zbacs.Lib Zbacs.Core Zbacs.Proto Zbacs.Session

-- A file and an approval of it to run the agent with: the container the owner sealed,
-- the terms for one device, and the answer as it arrives in the inbox.

abbrev libraries : Libraries := Proto.Reference.libraries

theorem libraries_lawful : libraries.toPrimitives.Lawful := Core.Reference.primitives_lawful

def device : DeviceIdentity libraries := ⟨Core.Reference.device, ⟨.replicate 32 0x22⟩⟩

def options (policy : Policy) : SealOptions :=
  { SealOptions.new [0x01, 0x02] "a.txt" with policy := policy, chunkSize := 2 }

def nonce : FixedBytes 16 := .replicate 16 0x41

def keyHash : FixedBytes 32 := deviceKeyHash libraries device.x25519Pub device.ed25519Pub

-- The terms, valid from 100 to 200.
def terms (target : Target) (permission : Permission) (maxOpens : UInt16) : AccessGrantTerms :=
  { fileId := target.fid
    headerHash := target.headerHash
    deviceKeyHash := keyHash
    permission := permission.toByte
    notBefore := 100
    expiry := 200
    maxOpens := maxOpens
    requestNonce := nonce
    grantNonce := 1 }

-- The DEK for this device, bound to the terms.
@[irreducible] def envelopeBytes (t : AccessGrantTerms) : Option Bytes :=
  match Core.Envelope.sealDek libraries.toPrimitives device.x25519Pub.bytes Core.Reference.draws.dek
      (t.structHash libraries).bytes [9] with
  | .error _ => none
  | .ok e => (libraries.envelopeCodec.encode e).toOption

def grantMsg (t : AccessGrantTerms) (txHash : Option (FixedBytes 32)) : GrantMsg :=
  { requestNonce := nonce
    grant := some (termsWire.put t)
    ownerSig := none
    envelope := envelopeBytes t
    txHash := txHash
    decision := t.permission
    ts := 110 }

def signedAnswer (t : AccessGrantTerms) (txHash : Option (FixedBytes 32)) : Signed :=
  ⟨grantWire.put (grantMsg t txHash), .replicate 16 0, .grant, 110, .replicate 16 7,
    .replicate 64 0⟩

def answer (t : AccessGrantTerms) (txHash : Option (FixedBytes 32)) : Proto.Envelope :=
  ⟨.replicate 16 1, .grant, signedWire.put (signedAnswer t txHash), 111⟩

def asking (target : Target) (chain : Bool) : Asking :=
  ⟨"a.zbacs", target, .readOnly, keyHash, .default, chain⟩

def sending : Sending := ⟨.ok (), nonce, .ok ()⟩

-- One round in which the answer is there, at time 120.
def poll (t : AccessGrantTerms) (txHash : Option (FixedBytes 32)) (chain : ChainAnswer) : Poll :=
  ⟨false, 2000, some [answer t txHash], fun _ => chain, 120⟩

-- The grant as it is held after that round.
def granted (t : AccessGrantTerms) (permission : Permission) : Held :=
  ⟨{ Session.new with
      permission := some permission
      notBefore := t.notBefore
      expiry := t.expiry
      maxOpens := t.maxOpens
      state := .granted }, some t, envelopeBytes t⟩

def sealed : Path := ["home", "a.zbacs"]

def base : Path := ["run", "sessions"]

def disk (container : Bytes) : Fs :=
  (Fs.empty.insert ["home"] .dir).insert sealed (.file container false)

def running (held : Held) : Running libraries := ⟨sealed, held, device.keys, device.signing, base⟩

-- A session opened at 130 that nothing disturbs.
def script (rounds : List Round) : Script := ⟨7, .calm 130, true, rounds, id, 140, .none⟩

-- A round at 131, with the viewer still there and a relay that takes notices.
def round (disk : Fs → Fs) (event : Option SaveEvent) (cancelled : Bool) : Round :=
  ⟨disk, cancelled, none, 131, some true, event, ⟨.calm, Core.Reference.draws, .ok (), 131⟩⟩

-- Where the session's file is.
def plain : Path := base ++ [sessionIdOf 130 7] ++ ["a.txt"]

variable {target : Target} {permission : Permission} {maxOpens : UInt16}

theorem options_sealable (policy : Policy) : (options policy).Sealable libraries.toPrimitives where
  chunkPos := Nat.zero_lt_two
  chunkMax := show 2 ≤ maxChunk by decide
  name := show (utf8 "a.txt").length ≤ maxNameLen by decide
  ownerPos := Nat.zero_lt_two
  ownerMax := show 2 ≤ maxOwnerLen by decide
  recipients := by
    intro pk hpk
    cases hpk
  recipientsMax := Nat.zero_le _
  prev := by rintro p ⟨⟩

-- The owner can seal the file under any policy.
theorem container_sealed (policy : Policy) : ∃ h out headerBytes frames,
    sealSigned libraries.toPrimitives Core.Reference.input .memory
      Core.Reference.owner.sealing.x25519Pk Core.Reference.owner.signing (options policy)
      Core.Reference.draws = .ok (h, out) ∧
    SealedAs libraries.toPrimitives Core.Reference.input.data Core.Reference.owner.sealing.x25519Pk
      Core.Reference.owner.signing (options policy) Core.Reference.draws h out headerBytes frames := by
  obtain ⟨h, out, hseal⟩ := sealSigned_ok libraries_lawful (options_sealable policy).accepted
    Core.Reference.input Sink.memory_total Core.Reference.owner.sealing.validKey
    Core.Reference.owner.signing Core.Reference.draws
  obtain ⟨headerBytes, frames, s⟩ := sealSigned_eq_ok hseal
  exact ⟨h, out, headerBytes, frames, hseal, s⟩

-- The envelope in the answer holds the container's DEK.
theorem envelopeBytes_eq (t : AccessGrantTerms) : ∃ e bytes,
    Core.Envelope.sealDek libraries.toPrimitives device.x25519Pub.bytes Core.Reference.draws.dek
      (t.structHash libraries).bytes [9] = .ok e ∧ libraries.envelopeCodec.encode e = .ok bytes ∧
    envelopeBytes t = some bytes ∧ bytes.length ≤ 194 := by
  obtain ⟨e, hseal, -⟩ := Core.Envelope.sealDek_ok libraries_lawful
    device.x25519Pub.bytes Core.Reference.draws.dek (t.structHash libraries).bytes [9]
    device.keys.validKey
  obtain ⟨bytes, hencode, hlen⟩ := sealDek_encodes libraries_lawful hseal
  refine ⟨e, bytes, hseal, hencode, ?_, hlen⟩
  simp only [envelopeBytes, hseal, hencode, Except.toOption]

-- Whoever holds these terms with the envelope made for them has the DEK.
theorem grantKey_eq {held : Held} {t : AccessGrantTerms} (hterms : held.terms = some t)
    (henvelope : held.envelope = envelopeBytes t) :
    grantKey libraries held device.keys = .ok (t, Core.Reference.draws.dek) := by
  obtain ⟨e, bytes, hseal, hencode, hbytes, -⟩ := envelopeBytes_eq t
  exact grantKey_eq_ok.mpr ⟨hterms, bytes, e, henvelope.trans hbytes,
    libraries_lawful.envelopeCodec hencode, Core.Envelope.openDek_sealDek libraries_lawful hseal⟩

theorem terms_for (target : Target) (permission : Permission) (maxOpens : UInt16) :
    TermsFor (terms target permission maxOpens) permission nonce target keyHash :=
  ⟨rfl, rfl, rfl, rfl, rfl⟩

theorem grantMsg_size (t : AccessGrantTerms) (txHash : Option (FixedBytes 32)) :
    grantWire.size (grantMsg t txHash) ≤ 1000 := by
  obtain ⟨e, bytes, -, -, hbytes, hlen⟩ := envelopeBytes_eq t
  have hterms := (termsWire.length_put t).trans (termsWire_size t)
  have hgrant := grantWire_size (grantMsg t txHash)
  have hparts : ((grantMsg t txHash).grant.getD []).length = (termsWire.put t).length ∧
      ((grantMsg t txHash).ownerSig.getD []).length = 0 ∧
      ((grantMsg t txHash).envelope.getD []).length = bytes.length := by
    simp [grantMsg, hbytes]
  omega

theorem fromBytes_answer (t : AccessGrantTerms) (txHash : Option (FixedBytes 32)) :
    Signed.fromBytes libraries (answer t txHash).body = .ok (signedAnswer t txHash) := by
  refine Proto.Reference.fromBytes_put (signedAnswer t txHash) ?_
  have hpayload := (grantWire.length_put (grantMsg t txHash)).trans (grantMsg_size t txHash)
  exact hpayload.trans (by decide)

theorem decode_answer (t : AccessGrantTerms) (txHash : Option (FixedBytes 32)) :
    libraries.grantCodec.decode (signedAnswer t txHash).payload = .ok (grantMsg t txHash) := by
  have hsize := grantMsg_size t txHash
  exact grantWire.decode_put (grantMsg t txHash) (by omega)

-- The answer is taken for what it is.
theorem classify_answer (hallowed : permission = .readOnly ∨ permission = .edit)
    (txHash : Option (FixedBytes 32)) :
    classify libraries (answer (terms target permission maxOpens) txHash) nonce target keyHash =
      .granted permission (terms target permission maxOpens)
        (envelopeBytes (terms target permission maxOpens)) txHash := by
  let t := terms target permission maxOpens
  have hterms : AccessGrantTerms.fromCbor libraries (termsWire.put t) = .ok t := by
    rw [AccessGrantTerms.fromCbor, show libraries.termsCodec = termsWire.codec from rfl,
      termsWire.decode_put _ ((termsWire_size _).trans_lt (by decide)), Except.mapError]
  exact @classify_ok libraries (answer t txHash) nonce target keyHash (signedAnswer t txHash)
    (grantMsg t txHash) permission (termsWire.put t) t rfl (fromBytes_answer t txHash) rfl
    (decode_answer t txHash) rfl rfl hallowed rfl hterms (terms_for target permission maxOpens)

theorem classify_otherNonce {other : FixedBytes 16} (hother : other ≠ nonce) (t : AccessGrantTerms)
    (txHash : Option (FixedBytes 32)) (target : Target) (ourKeyHash : FixedBytes 32) :
    classify libraries (answer t txHash) other target ourKeyHash = .notOurs :=
  classify_notOurs (fromBytes_answer t txHash) (decode_answer t txHash) (Ne.symm hother)

-- One round is enough, unless a node that is asked says no.
theorem ask_answer (hallowed : permission = .readOnly ∨ permission = .edit)
    (txHash : Option (FixedBytes 32)) (chain : Bool) {word : ChainAnswer} (hword : word ≠ .invalid)
    (sentAt : UInt64) :
    ∃ asked, ask libraries (asking target chain) sending sentAt
        [poll (terms target permission maxOpens) txHash word] = some asked ∧
      asked.outcome = .granted permission 200 ∧
      asked.held = granted (terms target permission maxOpens) permission ∧
      asked.confirmed = if chainWord libraries (asking target chain)
          (poll (terms target permission maxOpens) txHash word) (terms target permission maxOpens)
          txHash = .valid
        then [(terms target permission maxOpens).structHash libraries] else [] := by
  have hdeny : permission ≠ .deny := by
    rcases hallowed with rfl | rfl <;> decide
  have happly : Session.new.apply (.granted permission 100 200 maxOpens) 120 = _ :=
    Session.apply_granted rfl hdeny (by decide) (by decide)
  have hclass : classify libraries (answer (terms target permission maxOpens) txHash) sending.nonce
      (asking target chain).target (asking target chain).ourKeyHash = _ :=
    classify_answer hallowed txHash
  refine ask_ok rfl rfl rfl (show 2000 < 300000 by decide) rfl hclass ?_ happly
  unfold chainWord
  split_ifs
  · exact hword
  · decide

theorem lookup_disk (container : Bytes) (p : Path) :
    (disk container).lookup p = if p = sealed then some (.file container false)
      else if p = ["home"] then some .dir else none := by
  by_cases hfile : p = sealed
  · subst hfile
    simp [disk]
  · by_cases hdir : p = ["home"]
    · subst hdir
      rw [disk, Fs.lookup_insert_ne _ hfile, Fs.lookup_insert_self, if_neg hfile, if_pos rfl]
    · rw [disk, Fs.lookup_insert_ne _ hfile, Fs.lookup_insert_ne _ hdir, if_neg hfile, if_neg hdir]
      rfl

theorem readFile_disk (container : Bytes) : (disk container).readFile sealed = some container := by
  simp [Fs.readFile, lookup_disk]

theorem disk_room (container : Bytes) (sessionId : String) :
    Workspace.Room base sessionId (disk container) where
  dirs p hp := by
    obtain ⟨⟨rest, hrest⟩, hne⟩ := Fs.mem_ancestors.mp hp
    cases p with
    | nil => exact absurd rfl hne
    | cons top p =>
        obtain rfl : top = "run" := (List.cons.inj hrest).1
        exact .inl (by simp [lookup_disk, sealed])
  fresh p hp := by
    obtain ⟨rest, rfl⟩ := hp
    simp [lookup_disk, sealed, base]

theorem goodName (policy : Policy) : GoodName (options policy).fileName :=
  show GoodName "a.txt" from ⟨by decide, by decide, by decide, by decide⟩

-- The granted file opens into a fresh workspace, as often as the terms allow.
theorem materialise_granted {policy : Policy} {h : Header} {out headerBytes frames : Bytes}
    (s : SealedAs libraries.toPrimitives Core.Reference.input.data
      Core.Reference.owner.sealing.x25519Pk Core.Reference.owner.signing (options policy)
      Core.Reference.draws h out headerBytes frames)
    {env : OpenEnv} (hquiet : env.Quiet) {sessionId : String} (hid : Workspace.GoodId sessionId)
    {fs : Fs} (hroom : Workspace.Room base sessionId fs) (hfile : fs.readFile sealed = some out)
    (held : Held) {t : AccessGrantTerms} (hterms : held.terms = some t)
    (henvelope : held.envelope = envelopeBytes t) (hversion : t.headerHash = libraries.sha256 headerBytes)
    (hstate : held.session.state = .granted)
    (hbudget : held.session.maxOpens = 0 ∨ held.session.opens < held.session.maxOpens) :
    ∃ effects fs', materialise libraries sealed held device.keys base sessionId env fs =
        ⟨.ok ⟨⟨base ++ [sessionId]⟩, base ++ [sessionId] ++ ["a.txt"], "a.txt", effects⟩,
          { held with session :=
            { held.session with opens := held.session.opens + 1, state := .opened } },
          fs', Core.Reference.input.data⟩ ∧
      fs'.readFile (base ++ [sessionId] ++ ["a.txt"]) = some Core.Reference.input.data ∧
      fs'.lookup (base ++ [sessionId]) = some .dir ∧
      ∀ q, ¬(base ++ [sessionId] <+: q) →
        fs'.lookup q = if q ∈ Fs.ancestors base then some .dir else fs.lookup q :=
  materialise_ok libraries_lawful s (options_sealable policy) Core.Reference.input.length_lt
    (goodName policy) hquiet hid hroom hfile (grantKey_eq hterms henvelope) hversion hstate hbudget

-- The answer arrives, and the file opens under it.
theorem materialise_asked {policy : Policy} {h : Header} {out headerBytes frames : Bytes}
    (s : SealedAs libraries.toPrimitives Core.Reference.input.data
      Core.Reference.owner.sealing.x25519Pk Core.Reference.owner.signing (options policy)
      Core.Reference.draws h out headerBytes frames)
    (hversion : target.headerHash = libraries.sha256 headerBytes) (txHash : Option (FixedBytes 32))
    (chain : Bool) {word : ChainAnswer} (hword : word ≠ .invalid) :
    ∃ asked, ask libraries (asking target chain) sending 90 [poll (terms target .edit 1) txHash word] =
        some asked ∧
      asked.outcome = .granted .edit 200 ∧ asked.held.terms = some (terms target .edit 1) ∧
      (asked.confirmed = if chainWord libraries (asking target chain)
          (poll (terms target .edit 1) txHash word) (terms target .edit 1) txHash = .valid
        then [(terms target .edit 1).structHash libraries] else []) ∧
      (materialise libraries sealed asked.held device.keys base "1" (.calm 130) (disk out)).written =
        [1, 2, 3, 4, 5] := by
  obtain ⟨asked, hask, hgranted, hheld, hconfirmed⟩ := @ask_answer target .edit 1 (.inr rfl) txHash
    chain word hword 90
  have hterms : asked.held.terms = some (terms target .edit 1) := by rw [hheld, granted]
  obtain ⟨effects, fs', hmat, -⟩ := materialise_granted s (OpenEnv.calm_quiet 130)
    (show Workspace.GoodId "1" from ⟨by decide, by decide⟩) (disk_room out "1") (readFile_disk out)
    asked.held hterms (by rw [hheld, granted]) hversion (by rw [hheld, granted])
    (.inr (by rw [hheld]; exact UInt16.lt_iff_toNat_lt.mpr Nat.one_pos))
  refine ⟨asked, hask, hgranted, hterms, hconfirmed, ?_⟩
  rw [hmat]
  rfl

-- A session under a fresh grant for this version gets past its open.
theorem openSession_granted {policy : Policy} {h : Header} {out headerBytes frames : Bytes}
    (s : SealedAs libraries.toPrimitives Core.Reference.input.data
      Core.Reference.owner.sealing.x25519Pk Core.Reference.owner.signing (options policy)
      Core.Reference.draws h out headerBytes frames) {t : AccessGrantTerms}
    (hversion : t.headerHash = libraries.sha256 headerBytes) (permission : Permission)
    (rounds : List Round) :
    ∃ effects fs', openSession libraries (running (granted t permission)) (script rounds) (disk out) =
        ⟨.ok ⟨⟨base ++ [sessionIdOf 130 7]⟩, plain, "a.txt", effects⟩,
          { granted t permission with session :=
            { (granted t permission).session with opens := 1, state := .opened } },
          fs', Core.Reference.input.data⟩ ∧
      fs'.readFile plain = some Core.Reference.input.data ∧
      fs'.lookup (base ++ [sessionIdOf 130 7]) = some .dir ∧
      ∀ q, ¬(base ++ [sessionIdOf 130 7] <+: q) →
        fs'.lookup q = if q ∈ Fs.ancestors base then some .dir else (disk out).lookup q := by
  have hbudget : t.maxOpens = 0 ∨ (0 : UInt16) < t.maxOpens := by
    by_cases hzero : t.maxOpens = 0
    · exact .inl hzero
    · exact .inr (UInt16.pos_iff_ne_zero.mpr hzero)
  exact materialise_granted s (OpenEnv.calm_quiet 130) (goodId_sessionIdOf 130 7)
    (disk_room out (sessionIdOf 130 7)) (readFile_disk out) (granted t permission) rfl rfl hversion rfl
    hbudget

end Zbacs.Agent.Reference
