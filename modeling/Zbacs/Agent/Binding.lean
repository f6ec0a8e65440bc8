import Zbacs.Agent.Reference

namespace Zbacs.Agent

open Zbacs.Lib Zbacs.Core Zbacs.Proto Zbacs.Session

-- What an envelope was sealed for: a grant, or anything else, a container's file id
-- for one.
inductive Purpose where
  | grant (terms : AccessGrantTerms)
  | other (aad : Bytes)

def Purpose.aad (L : Libraries) : Purpose → Bytes
  | grant terms => (terms.structHash L).bytes
  | other aad => aad

-- An envelope somebody sealed to this device.
structure SealedTo where
  purpose : Purpose
  enc : Bytes
  ct : Bytes
  message : Bytes

section

variable (L : Libraries)

-- HPKE authenticates its AAD: what opens with this device's key was sealed to it,
-- under that AAD.
def AuthenticTo (device : DeviceKeys L.toPrimitives) (log : Set SealedTo) : Prop :=
  ∀ enc aad ct message,
    L.hpke.openWith enc device.x25519Sk.bytes dekInfo aad ct = some message →
    ∃ purpose, ⟨purpose, enc, ct, message⟩ ∈ log ∧ purpose.aad L = aad

-- The terms that usable answers in these rounds carry.
def Offered (asking : Asking) (nonce : FixedBytes 16) (polls : List Poll) :
    Set AccessGrantTerms :=
  {terms | ∃ poll ∈ polls, ∃ permission bytes txHash,
    Accepted L asking nonce poll permission terms bytes txHash}

-- No collision: an envelope whose AAD is the hash of offered terms is for these terms.
def CollisionFree (log : Set SealedTo) (offered : Set AccessGrantTerms) : Prop :=
  ∀ e ∈ log, ∀ terms ∈ offered, e.purpose.aad L = (terms.structHash L).bytes →
    e.purpose = .grant terms

end

variable {L : Libraries}

-- A held grant later on: the session may have moved, nothing else has.
def Held.Later (held held' : Held) : Prop :=
  held.session.Reaches held'.session ∧ held'.terms = held.terms ∧ held'.envelope = held.envelope

-- What plaintext in a workspace says about the approval it was decrypted under.
structure BoundTo (L : Libraries) (device : DeviceIdentity L) (log : Set SealedTo) (asking : Asking)
    (nonce : FixedBytes 16) (terms : AccessGrantTerms) (container : Bytes)
    (opened : Held) : Prop where
  fileId_eq : terms.fileId = asking.target.fid
  headerHash_eq : terms.headerHash = asking.target.headerHash
  onDisk : ∃ version headerBytes rest, version.length = 2 ∧
    container = magic ++ version ++ leBytes 4 headerBytes.length ++ headerBytes ++ rest ∧
    terms.headerHash = L.sha256 headerBytes
  deviceKeyHash_eq : terms.deviceKeyHash = deviceKeyHash L device.x25519Pub device.ed25519Pub
  requestNonce_eq : terms.requestNonce = nonce
  permission : ∃ permission, opened.session.permission = some permission ∧
    terms.permission = permission.toByte ∧ (permission = .readOnly ∨ permission = .edit)
  envelope : ∃ bytes envelope dek, opened.envelope = some bytes ∧
    L.envelopeCodec.decode bytes = .ok envelope ∧
    ⟨.grant terms, envelope.enc, envelope.ct, FixedBytes.bytes dek⟩ ∈ log ∧
    envelope.openDek device.keys (terms.structHash L).bytes = .ok dek
  budget : terms.maxOpens ≠ 0 → opened.session.opens ≤ terms.maxOpens

-- Whatever the relay delivers and whatever is on disk when: plaintext is written only
-- under an approval of this file and version, for this device and this request, that
-- was inside its window when it was taken.
theorem materialise_written_bound {device : DeviceIdentity L} {log : Set SealedTo} {asking : Asking}
    {sending : Sending} {asked : Asked} {sentAt : UInt64} {polls : List Poll}
    {permission : Permission} {expiry : UInt64}
    (hkey : asking.ourKeyHash = deviceKeyHash L device.x25519Pub device.ed25519Pub)
    (hauth : AuthenticTo L device.keys log)
    (hfree : CollisionFree L log (Offered L asking sending.nonce polls))
    (hask : ask L asking sending sentAt polls = some asked)
    (hgranted : asked.outcome = .granted permission expiry)
    {held : Held} (hlater : asked.held.Later held)
    {sealed base : Path} {sessionId : String} {env : OpenEnv} {fs : Fs}
    (hwritten : (materialise L sealed held device.keys base sessionId env fs).written ≠ []) :
    ∃ terms container, held.terms = some terms ∧ fs.readFile sealed = some container ∧
      BoundTo L device log asking sending.nonce terms container
        (materialise L sealed held device.keys base sessionId env fs).held ∧
      ∃ pre poll post, polls = pre ++ poll :: post ∧ ask L asking sending sentAt pre = none ∧
        ask L asking sending sentAt (pre ++ [poll]) = some asked ∧
        terms.notBefore ≤ poll.now ∧ poll.now < terms.expiry := by
  obtain ⟨pre, poll, post, permission, terms, bytes, txHash, session, effects, hpolls, hpre, hfirst,
    hacc, happly, hheld, _⟩ := ask_granted hask hgranted
  obtain ⟨hunder, hopen, hclose⟩ := Session.under_of_granted happly
  obtain ⟨hreaches, hterms, hbytes⟩ := hlater
  rw [hheld] at hreaches hterms hbytes
  obtain ⟨_, envelope, _, _, _, hclass⟩ := hacc.message
  obtain ⟨hallowed, hfor⟩ := classify_eq_granted hclass
  rcases materialise_cases held device.keys sealed base sessionId env fs with
    ⟨_, _, hnil, _⟩ | ⟨dek, header, headerHash, rest, session', effects', hunlock, happly', _, heq⟩
  · exact absurd hnil hwritten
  obtain ⟨_, terms', container, hkeyOk, hfile, hread, hversion⟩ := unlock_eq_ok.mp hunlock
  obtain ⟨hterms', bytes', env', hbytes', hdecode, hopened⟩ := grantKey_eq_ok.mp hkeyOk
  obtain rfl : terms' = terms := by
    rw [hterms] at hterms'
    exact (Option.some.inj hterms').symm
  have hunder' := (hunder.reaches hreaches).step (Session.step_of_apply happly')
  obtain ⟨version, headerBytes, hlen, _, hcontainer, hhash⟩ := readHeader_eq_ok hread
  rw [Reader.rest_ofData] at hcontainer
  obtain ⟨purpose, hlog, haad⟩ := hauth _ _ _ _ (Envelope.openDek_eq_ok.mp hopened).2
  have hoffered : terms' ∈ Offered L asking sending.nonce polls :=
    ⟨poll, by simp [hpolls], permission, bytes, txHash, hacc⟩
  obtain rfl := hfree _ hlog terms' hoffered haad
  rw [heq]
  refine ⟨terms', container, hterms, hfile, ?_, pre, poll, post, hpolls, hpre, hfirst, hopen, hclose⟩
  exact
    { fileId_eq := hfor.file
      headerHash_eq := hfor.version
      onDisk := ⟨version, headerBytes, _, hlen, hcontainer, hversion.symm.trans hhash⟩
      deviceKeyHash_eq := hfor.device.trans hkey
      requestNonce_eq := hfor.nonce
      permission := ⟨permission, hunder'.permission_eq, hfor.permission, hallowed⟩
      envelope := ⟨bytes', env', dek, hbytes', hdecode, hlog, hopened⟩
      budget := hunder'.budget }

namespace Reference

-- Whatever opens with the device's key, taken as sealed for these terms if it opens
-- under their hash.
def log (t : AccessGrantTerms) : Set SealedTo :=
  {e | libraries.hpke.openWith e.enc device.keys.x25519Sk.bytes dekInfo (e.purpose.aad libraries)
      e.ct = some e.message ∧
    (e.purpose = .grant t ∨ e.purpose.aad libraries ≠ (t.structHash libraries).bytes)}

theorem log_authentic (t : AccessGrantTerms) : AuthenticTo libraries device.keys (log t) := by
  intro enc aad ct message hopen
  by_cases haad : aad = (t.structHash libraries).bytes
  · subst haad
    exact ⟨.grant t, ⟨hopen, .inl rfl⟩, rfl⟩
  · exact ⟨.other aad, ⟨hopen, .inr haad⟩, rfl⟩

-- With one answer in the one round, only its terms are offered.
theorem log_collisionFree {target : Target} {permission : Permission} (maxOpens : UInt16)
    (hallowed : permission = .readOnly ∨ permission = .edit) (txHash : Option (FixedBytes 32))
    (chain : Bool) (word : ChainAnswer) :
    CollisionFree libraries (log (terms target permission maxOpens))
      (Offered libraries (asking target chain) sending.nonce
        [poll (terms target permission maxOpens) txHash word]) := by
  rintro e ⟨-, hpurpose⟩ t ⟨p, hp, _, _, _, ⟨before, envelope, after, hinbox, -, hclass⟩⟩ haad
  obtain rfl := List.mem_singleton.mp hp
  have hmem : envelope ∈ [answer (terms target permission maxOpens) txHash] := by
    rw [show [_] = before ++ envelope :: after from hinbox]
    simp
  obtain rfl := List.mem_singleton.mp hmem
  have hanswer : classify libraries (answer (terms target permission maxOpens) txHash) sending.nonce
      (asking target chain).target (asking target chain).ourKeyHash = _ :=
    classify_answer hallowed txHash
  rw [hanswer] at hclass
  cases hclass
  exact hpurpose.resolve_right fun hne => hne haad

theorem materialise_written_bound_five_bytes :
    ∃ (target : Target) (container : Bytes) (asked : Asked),
      ask libraries (asking target false) sending 90 [poll (terms target .edit 1) none .unreachable] =
        some asked ∧
      (materialise libraries sealed asked.held device.keys base "1" (.calm 130)
        (disk container)).written = [1, 2, 3, 4, 5] ∧
      BoundTo libraries device (log (terms target .edit 1)) (asking target false) nonce
        (terms target .edit 1) container
        (materialise libraries sealed asked.held device.keys base "1" (.calm 130)
          (disk container)).held := by
  obtain ⟨h, out, headerBytes, frames, -, s⟩ := container_sealed .defaultPolicy
  let target : Target := ⟨h.body.fid, libraries.sha256 headerBytes, h.body.own⟩
  obtain ⟨asked, hask, hgranted, hterms, -, hwritten⟩ := materialise_asked s
    (show target.headerHash = _ from rfl) none false (show ChainAnswer.unreachable ≠ _ by decide)
  obtain ⟨t, container, hterms', hfile, hbound, -⟩ := materialise_written_bound rfl
    (log_authentic (terms target .edit 1)) (log_collisionFree 1 (.inr rfl) none false .unreachable)
    hask hgranted ⟨.refl, rfl, rfl⟩ (by rw [hwritten]; simp)
  rw [readFile_disk] at hfile
  cases hfile
  rw [hterms] at hterms'
  cases hterms'
  exact ⟨target, out, asked, hask, hwritten, hbound⟩

end Reference

end Zbacs.Agent
