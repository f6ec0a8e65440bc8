import Zbacs.Agent.Open.Saving
import Zbacs.Agent.RunSession.Theorems
import Zbacs.Agent.SealFile

namespace Zbacs.Agent

open Zbacs.Lib Zbacs.Core Zbacs.Proto Zbacs.Session Zbacs.Agent.Setup

-- A file on its way: its owner locks it, somebody asks for it and is allowed, opens it and saves it,
-- and the owner takes the next version into the record.

section

variable (P : Primitives)

-- What a request needs to know, read from the container without a key. A file the owner locked shut
-- is not asked about.
def targetOf (readable : Bool) (offer : Nat → Nat) (path : Path) (fs : Fs) : Except Problem Target :=
  match fs.lookup path with
  | none => .error .missing
  | some .dir => .error .unreadable
  | some (.file container _) =>
    if !readable then .error .unreadable
    else match inspect P (.ofData container offer) with
      | .error _ => .error .unreadable
      | .ok (header, headerHash) =>
        if header.body.pol.default = .deny then .error .ownerDenies
        else .ok ⟨header.body.fid, headerHash, header.body.own⟩

end

section

variable (L : Libraries)

-- A message as it travels: signed once by this device, in a body that is not too large.
structure Posted {α : Type} (kind : Kind) (codec : Codec α) (sender : DeviceIdentity L) (message : α)
    (ts : UInt64) (envelope : Proto.Envelope) : Prop where
  kind_eq : envelope.kind = kind
  signed : ∃ nonce signed, Signed.sign L kind codec sender message ts nonce = .ok signed ∧
    L.signedCodec.encode signed = .ok envelope.body
  short : envelope.body.length ≤ maxBodyLen

-- What the CBOR library and the signature promise for the messages of a share.
structure Carries : Prop where
  signedCodec : L.signedCodec.RoundTrips
  requestCodec : L.requestCodec.RoundTrips
  grantCodec : L.grantCodec.RoundTrips
  termsCodec : L.termsCodec.RoundTrips
  ed25519 : L.ed25519.Correct

variable (owner : OwnerKeys L.toPrimitives)

-- The course of one file: the owner's record and disk, the container of its newest version, what is
-- in it and the name it has.
inductive Course : Ledger → Fs → Bytes → Bytes → String → Prop where
  -- locked, and written down
  | locked {profile : DeviceProfile} {request : SealRequest} {run : SealRun} {fs fs' : Fs}
      {result : SealResult} {io : LedgerIo} {now : UInt64} {l l' : Ledger} {container content : Bytes}
      (hseal : sealNow L.toPrimitives owner profile request run fs = (.ok result, fs'))
      (hcontent : fs.readFile request.path = some content)
      (hcontainer : fs'.readFile result.output = some container)
      (hrecord : l.record io (.ofSeal result request now) = (.ok (), l')) :
      Course l' fs' container content (fileName request.path)
  -- the machine does something else, and leaves the file's entry and the container alone
  | elsewhere {l l' : Ledger} {fs fs' : Fs} {container content : Bytes} {name : String}
      (hcourse : Course l fs container content name)
      (hentry : ∀ offer header hash, inspect L.toPrimitives (.ofData container offer) = .ok (header, hash) →
        l'.files.lookup (hexEncode header.body.fid.bytes) =
          l.files.lookup (hexEncode header.body.fid.bytes))
      (hfile : ∀ path, fs.readFile path = some container → fs'.readFile path = some container) :
      Course l' fs' container content name
  -- a recipient has opened a copy and saves it; the owner takes the notice
  | saved {l l' : Ledger} {fs : Fs} {container container' content edited : Bytes} {name : String}
      {sealed : Path} {held held' : Held} {device : DeviceKeys L.toPrimitives} {signer : SigningKeys}
      {base : Path} {sessionId : String} {atOpen : OpenEnv} {atSave : SaveEnv} {opening saving : Fs}
      {mat : Materialised} {saved : Saved} {taking : NoticeEnv} {entry : Entry}
      (hcourse : Course l fs container content name)
      (hcopy : opening.readFile sealed = some container)
      (hopen : (materialise L sealed held device base sessionId atOpen opening).result = .ok mat)
      (hgrant : held.SameGrant held') (hfile : saving.readFile sealed = some container)
      (hedited : saving.readFile mat.plain = some edited)
      (hsave : (save L sealed mat held' device signer atSave saving).result = .ok saved)
      (hnext : (save L sealed mat held' device signer atSave saving).fs.readFile sealed = some container')
      (htaken : applyVersion taking saved.notice l = (.ok entry, l')) :
      Course l' fs container' edited mat.name

end

-- A version of a file as its maker left it: sealed for the owner alone, within the limits.
structure Version (L : Libraries) (ownerPk : FixedBytes 32) where
  content : Bytes
  author : SigningKeys
  opts : SealOptions
  rng : SealRandom
  header : Header
  container : Bytes
  headerBytes : Bytes
  frames : Bytes
  sealed : SealedAs L.toPrimitives content ownerPk author opts rng header container headerBytes frames
  sealable : opts.Sealable L.toPrimitives
  alone : opts.extraRecipients = []
  short : content.length < 2 ^ 64

namespace Version

variable {L : Libraries} {ownerPk : FixedBytes 32} (v : Version L ownerPk)

def hash : HeaderHash := L.sha256 v.headerBytes

def name : String := v.opts.fileName

theorem inspect_eq (hP : L.toPrimitives.Lawful) (offer : Nat → Nat) :
    inspect L.toPrimitives (.ofData v.container offer) = .ok (v.header, v.hash) :=
  v.sealed.inspect_eq hP v.sealable.withinLimits offer

theorem decryptName_eq (hP : L.toPrimitives.Lawful) :
    decryptName L.toPrimitives v.header v.rng.dek = .ok v.name :=
  v.sealed.decryptName_eq hP

end Version

-- How the owner comes by the key of a version: from the file on disk, or from the envelope that came
-- with its notice.
inductive KeyAt {L : Libraries} (owner : OwnerKeys L.toPrimitives) (fs : Fs)
    (v : Version L owner.sealing.x25519Pk) (entry : Entry) : Prop
  | onDisk (hnone : entry.ownerEnvelope = none) (hfile : fs.readFile entry.path = some v.container)
  | stored {bytes : Bytes} {mine : Core.Envelope} (hsome : entry.ownerEnvelope = some bytes)
      (hdecode : L.envelopeCodec.decode bytes = .ok mine)
      (hopen : mine.openDek owner.sealing v.header.body.fid.bytes = .ok v.rng.dek)

-- The record names this version, and the owner can come by its key.
structure Recorded {L : Libraries} (owner : OwnerKeys L.toPrimitives) (l : Ledger) (fs : Fs)
    (v : Version L owner.sealing.x25519Pk) (entry : Entry) : Prop where
  listed : l.files.lookup (hexEncode v.header.body.fid.bytes) = some entry
  hash : entry.headerHash = hexEncode v.hash.bytes
  key : KeyAt owner fs v entry

section Saving

variable {L : Libraries} {held : Held} {device : DeviceKeys L.toPrimitives} {signer : SigningKeys}
  {sealed : Path} {mat : Materialised} {env : SaveEnv} {fs : Fs} {saved : Saved}

-- What a notice says is read from the container that was just written.
structure Notified (L : Libraries) (sealed : Path) (grantId : FixedBytes 32) (prevHash : HeaderHash)
    (header : Header) (env : SaveEnv) (fs : Fs) (saved : Saved) : Prop where
  container : ∃ container read, fs.readFile sealed = some container ∧
    inspect L.toPrimitives (.ofData container env.disk.offer) = .ok (read, saved.notice.headerHash)
  ownerEnvelope : ∃ e rest, header.body.env = e :: rest ∧
    L.envelopeCodec.encode e = .ok saved.notice.ownerEnvelope
  fid : saved.notice.fid = header.body.fid
  prev : saved.notice.prevHeaderHash = prevHash
  ver : saved.notice.ver = header.body.ver
  grantId : saved.notice.grantId = grantId

theorem announceVersion_eq_ok {grantId : FixedBytes 32} {prevHash : HeaderHash} {header : Header}
    (h : (announceVersion L sealed held grantId prevHash header signer env fs).result = .ok saved) :
    Notified L sealed grantId prevHash header env fs saved := by
  unfold announceVersion at h
  split at h
  · cases h
  · rename_i container hfile
    split at h
    · cases h
    · rename_i read newHash hinspect
      split at h
      · cases h
      · rename_i e rest henv
        split at h
        · cases h
        · rename_i bytes hencode
          simp only at h
          split at h
          · cases h
          · cases h
            exact ⟨⟨container, read, hfile, hinspect⟩, ⟨e, rest, henv, hencode⟩, rfl, rfl, rfl, rfl⟩

-- A save that went through: which version it was made of, with which key, and what was announced.
theorem save_announced (h : (save L sealed mat held device signer env fs).result = .ok saved) :
    ∃ terms dek container prev header, grantKey L held device = .ok (terms, dek) ∧
      fs.readFile sealed = some container ∧
      inspect L.toPrimitives (.ofData container env.disk.offer) = .ok (prev, terms.headerHash) ∧
      resealAsRecipientToPath L.toPrimitives mat.plain sealed dek signer prev.body.pol env.rng env.disk
        fs = (.ok header, (save L sealed mat held device signer env fs).fs) ∧
      Notified L sealed (terms.structHash L) terms.headerHash header env
        (save L sealed mat held device signer env fs).fs saved := by
  unfold save at h ⊢
  split at h
  · cases h
  · rename_i hstate
    rw [if_neg hstate]
    split at h
    · cases h
    · rename_i terms dek hkey
      split at h
      · cases h
      · rename_i container hfile
        split at h
        · cases h
        · rename_i prev prevHash hinspect
          split at h
          · cases h
          · rename_i hversion
            obtain rfl := not_not.mp hversion
            split at h
            · cases h
            · cases h
            · rename_i header fs' hreseal
              refine ⟨terms, dek, container, prev, header, hkey, hfile, hinspect, ?_, ?_⟩
              · simp only [hversion, if_false, hreseal, announceVersion_fs]
              · simp only [hversion, if_false, announceVersion_fs]
                exact announceVersion_eq_ok h

end Saving

section Opening

variable {L : Libraries} {held : Held} {device : DeviceKeys L.toPrimitives} {sealed base : Path}
  {sessionId : String} {env : OpenEnv} {fs : Fs} {mat : Materialised}

theorem decryptName_of_openWithDek {P : Primitives} {header : Header} {hash : HeaderHash} {r : Reader}
    {sink : Sink} {dek : Dek} {opened : Opened} (h : (openWithDek P header hash r sink dek).result = .ok opened) :
    decryptName P header dek = .ok opened.fileName := by
  unfold openWithDek at h
  split at h
  · cases h
  · rename_i name hname
    simp only at h
    split at h
    · cases h
    · split at h
      · cases h
      · cases h
        exact hname

theorem settleName_name {workspace : Workspace} {plain : Path} {name : String} {effects : List Effect}
    (h : (settleName workspace plain name effects env fs).1 = .ok mat) : mat.name = name := by
  unfold settleName at h
  split at h
  · cases h
  · split at h
    · cases h
    · split at h
      · cases h
      · split at h
        · split at h
          · cases h
          · split at h
            · cases h
            · cases h
              rfl
        · cases h
          rfl

theorem extract_name {effects : List Effect} {header : Header} {headerHash : HeaderHash} {rest : Reader}
    {dek : Dek} (h : (extract L base sessionId effects env header headerHash rest dek fs).1 = .ok mat) :
    decryptName L.toPrimitives header dek = .ok mat.name := by
  unfold extract at h
  split at h
  · cases h
  · split at h
    · cases h
    · split at h
      · cases h
      · simp only at h
        split at h
        · cases h
        · rename_i opened hopened
          rw [settleName_name h]
          exact decryptName_of_openWithDek hopened

-- An open goes by the key of its grant, and gives the file the name that is in the container.
theorem materialise_name (h : (materialise L sealed held device base sessionId env fs).result = .ok mat) :
    ∃ terms dek container header hash, grantKey L held device = .ok (terms, dek) ∧
      fs.readFile sealed = some container ∧
      inspect L.toPrimitives (.ofData container env.offer) = .ok (header, hash) ∧
      decryptName L.toPrimitives header dek = .ok mat.name := by
  obtain ⟨e, herror, -⟩ | ⟨dek, header, headerHash, rest, session, effects, hunlock, -, -, heq⟩ :=
    materialise_cases held device sealed base sessionId env fs
  · rw [herror] at h
    cases h
  · obtain ⟨-, terms, container, hkey, hfile, hread, -⟩ := unlock_eq_ok.mp hunlock
    rw [heq] at h
    refine ⟨terms, dek, container, header, headerHash, hkey, hfile, ?_, extract_name h⟩
    simp [inspect, hread]

end Opening

section Course

variable {L : Libraries} {owner : OwnerKeys L.toPrimitives} {l l' : Ledger} {fs : Fs}

-- What a lock puts on disk is the first version of its file.
def LockedAs.version {profile : DeviceProfile} {request : SealRequest} {run : SealRun} {fs fs' : Fs}
    {result : SealResult} {content container headerBytes frames : Bytes} {header : Header}
    (h : LockedAs L.toPrimitives owner profile request run fs fs' result content header container
      headerBytes frames) : Version L owner.sealing.x25519Pk where
  content := content
  author := owner.signing
  opts := sealOpts profile request
  rng := run.rng
  header := header
  container := container
  headerBytes := headerBytes
  frames := frames
  sealed := h.sealed
  sealable := sealOpts_sealable profile h.sealed.name_eq.1
  alone := rfl
  short := h.short

-- A version that was written over another one can be written over again.
theorem Version.recipientOptions_sealable {ownerPk : FixedBytes 32} (v : Version L ownerPk)
    {signer : SigningKeys} {policy : Policy} {name : String} {rng : SealRandom} {header : Header}
    {edited container headerBytes frames : Bytes}
    (s : SealedAs L.toPrimitives edited ownerPk signer (recipientOptions v.header v.hash policy name) rng
      header container headerBytes frames) :
    (recipientOptions v.header v.hash policy name).Sealable L.toPrimitives := by
  have hver : v.header.body.ver.toNat < 2 ^ 32 - 1 := by
    have hversion := s.header.version
    simp only [recipientOptions, PrevVersion.of, nextVersion] at hversion
    split_ifs at hversion with hnext
    omega
  have hsame := v.sealed.recipientOptions_sealable v.sealable hver v.hash policy
  exact { hsame with name := s.name_eq.1 }

-- What a recipient writes over a version is the next one, whatever it is named.
def Version.next {ownerPk : FixedBytes 32} (v : Version L ownerPk) {signer : SigningKeys} {policy : Policy}
    {name : String} {rng : SealRandom} {header : Header} {edited container headerBytes frames : Bytes}
    (s : SealedAs L.toPrimitives edited ownerPk signer (recipientOptions v.header v.hash policy name) rng
      header container headerBytes frames) (hshort : edited.length < 2 ^ 64) : Version L ownerPk where
  content := edited
  author := signer
  opts := recipientOptions v.header v.hash policy name
  rng := rng
  header := header
  container := container
  headerBytes := headerBytes
  frames := frames
  sealed := s
  sealable := v.recipientOptions_sealable s
  alone := rfl
  short := hshort

theorem LockedAs.recorded {profile : DeviceProfile} {request : SealRequest} {run : SealRun} {fs fs' : Fs}
    {result : SealResult} {content container headerBytes frames : Bytes} {header : Header}
    (h : LockedAs L.toPrimitives owner profile request run fs fs' result content header container
      headerBytes frames) {io : LedgerIo} {now : UInt64}
    (hrecord : l.record io (.ofSeal result request now) = (.ok (), l')) :
    Recorded owner l' fs' h.version (.ofSeal result request now) := by
  obtain ⟨-, hput⟩ := Ledger.update_eq_ok.mp hrecord
  obtain rfl : l.putFile (.ofSeal result request now) = l' := by
    cases hput
    rfl
  have hresult := h.result_eq
  subst hresult
  exact ⟨AList.lookup_insert _, rfl, .onDisk rfl h.written⟩

-- Whatever else happens leaves the version on record.
theorem Recorded.elsewhere {fs' : Fs} {v : Version L owner.sealing.x25519Pk} {entry : Entry}
    (h : Recorded owner l fs v entry)
    (hentry : l'.files.lookup (hexEncode v.header.body.fid.bytes) =
      l.files.lookup (hexEncode v.header.body.fid.bytes))
    (hfile : ∀ path, fs.readFile path = some v.container → fs'.readFile path = some v.container) :
    Recorded owner l' fs' v entry where
  listed := hentry.trans h.listed
  hash := h.hash
  key := match h.key with
    | .onDisk hnone hthere => .onDisk hnone (hfile _ hthere)
    | .stored hsome hdecode hopen => .stored hsome hdecode hopen

-- The owner's envelope of a version that was just written is the first one, and opens.
theorem Version.ownerKey (hP : L.toPrimitives.Lawful) (v : Version L owner.sealing.x25519Pk)
    {e : Core.Envelope} {rest : List Core.Envelope} (henv : v.header.body.env = e :: rest) :
    e.openDek owner.sealing v.header.body.fid.bytes = .ok v.rng.dek := by
  have hall := sealEnvelopes_eq_ok v.sealed.header.env
  rw [henv] at hall
  cases hall with
  | cons hseal _ =>
      obtain ⟨seed, hseal⟩ := hseal
      exact Core.Envelope.openDek_sealDek hP hseal

-- What was sealed over a version is the next one of the same file.
theorem Version.follows {ownerPk : FixedBytes 32} {v v' : Version L ownerPk} {policy : Policy} {name : String}
    (hopts : v'.opts = recipientOptions v.header v.hash policy name) :
    v'.header.body.fid = v.header.body.fid ∧ v'.header.body.ver = v.header.body.ver + 1 := by
  have hidentity := v'.sealed.header.identity
  have hversion := v'.sealed.header.version
  rw [hopts] at hidentity hversion
  refine ⟨(Prod.mk.inj hidentity).1, ?_⟩
  simp only [recipientOptions, PrevVersion.of, nextVersion] at hversion
  split_ifs at hversion
  exact (Prod.mk.inj (Except.ok.inj hversion)).2.symm

-- The next version goes on record with its notice, together with the owner's envelope of it.
theorem Recorded.of_notice (hP : L.toPrimitives.Lawful) {v : Version L owner.sealing.x25519Pk}
    {entry : Entry} {sealed : Path} {env : SaveEnv} {saving : Fs} {saved : Saved}
    {grantId : FixedBytes 32} {prevHash : HeaderHash} (hnext : saving.readFile sealed = some v.container)
    (hnotice : Notified L sealed grantId prevHash v.header env saving saved) {taking : NoticeEnv}
    (htaken : applyVersion taking saved.notice l = (.ok entry, l')) :
    Recorded owner l' fs v entry := by
  obtain ⟨container, read, hthere, hinspect⟩ := hnotice.container
  obtain rfl := Option.some.inj (hnext.symm.trans hthere)
  rw [v.inspect_eq hP] at hinspect
  have hhash : v.hash = saved.notice.headerHash := (Prod.mk.inj (Except.ok.inj hinspect)).2
  obtain ⟨e, rest, henv, hencode⟩ := hnotice.ownerEnvelope
  obtain ⟨-, hadvance⟩ := applyVersion_eq_ok.mp htaken
  obtain ⟨-, old, hold, -, -, rfl, rfl⟩ := Ledger.advanceVersion_eq_ok.mp hadvance
  rw [hnotice.fid] at hold
  have hkey : old.fid = hexEncode v.header.body.fid.bytes := l.fileKeyed _ _ hold
  refine ⟨?_, by rw [hhash], .stored rfl (hP.envelopeCodec hencode) (v.ownerKey hP henv)⟩
  rw [Ledger.lookup_putFile, if_pos hkey.symm]

-- A save over a version, with the key that gives its name: the next version is on disk, and the
-- notice speaks of it.
theorem Version.saved_next (hP : L.toPrimitives.Lawful) {ownerPk : FixedBytes 32} (v : Version L ownerPk)
    {held : Held} {device : DeviceKeys L.toPrimitives} {signer : SigningKeys} {sealed : Path}
    {mat : Materialised} {env : SaveEnv} {fs : Fs} {saved : Saved} {edited : Bytes}
    (hfile : fs.readFile sealed = some v.container) (hedited : fs.readFile mat.plain = some edited)
    (hname : ∀ terms dek, grantKey L held device = .ok (terms, dek) →
      decryptName L.toPrimitives v.header dek = .ok mat.name)
    (hsave : (save L sealed mat held device signer env fs).result = .ok saved) :
    ∃ terms dek, grantKey L held device = .ok (terms, dek) ∧ ∃ v' : Version L ownerPk,
      v'.content = edited ∧ v'.opts = recipientOptions v.header v.hash v.header.body.pol mat.name ∧
      (save L sealed mat held device signer env fs).fs.readFile sealed = some v'.container ∧
      Notified L sealed (terms.structHash L) v.hash v'.header env
        (save L sealed mat held device signer env fs).fs saved := by
  obtain ⟨terms, dek, container, prev, header, hkey, hread, hinspect, hreseal, hnotice⟩ :=
    save_announced hsave
  obtain rfl := Option.some.inj (hfile.symm.trans hread)
  rw [v.inspect_eq hP] at hinspect
  obtain ⟨rfl, hhash⟩ := Prod.mk.inj (Except.ok.inj hinspect)
  unfold resealAsRecipientToPath at hreseal
  simp only [hfile, v.inspect_eq hP, v.sealed.header.opub, hname terms dek hkey] at hreseal
  obtain ⟨content, container', headerBytes', frames', hplain, hshort, s, hthere⟩ :=
    sealSignedToPath_eq_ok hreseal
  obtain rfl := Option.some.inj (hedited.symm.trans hplain)
  rw [← hhash] at hnotice
  exact ⟨terms, dek, hkey, v.next s hshort, rfl, rfl, hthere, hnotice⟩

-- At every point of its course the owner's record names the newest version of the file, as whoever
-- made it left it, and has a way to its key.
theorem Course.recorded (hP : L.toPrimitives.Lawful) {container content : Bytes} {name : String}
    (h : Course L owner l fs container content name) :
    ∃ v : Version L owner.sealing.x25519Pk, ∃ entry, v.container = container ∧ v.content = content ∧
      v.name = name ∧ Recorded owner l fs v entry := by
  induction h with
  | @locked profile request run fs fs' result io now l l' container content hseal hcontent hcontainer
      hrecord =>
      obtain ⟨content', header, container', headerBytes, frames, hlocked⟩ := sealNow_eq_ok hP hseal
      obtain rfl := Option.some.inj (hcontent.symm.trans hlocked.original)
      rw [hlocked.result_eq] at hcontainer
      obtain rfl := Option.some.inj (hcontainer.symm.trans hlocked.written)
      exact ⟨hlocked.version, _, rfl, rfl, rfl, hlocked.recorded hrecord⟩
  | @elsewhere l l' fs fs' container content name hcourse hentry hfile ih =>
      obtain ⟨v, entry, rfl, rfl, rfl, hrecorded⟩ := ih
      exact ⟨v, entry, rfl, rfl, rfl,
        hrecorded.elsewhere (hentry (fun _ => 0) _ _ (v.inspect_eq hP _)) hfile⟩
  | @saved l l' fs container container' content edited name sealed held held' device signer base
      sessionId atOpen atSave opening saving mat saved taking entry' hcourse hcopy hopen hgrant hfile hedited
      hsave hnext htaken ih =>
      obtain ⟨v, -, rfl, -, -, -⟩ := ih
      obtain ⟨terms, dek, copy, header, hash, hkey, hread, hinspect, hname⟩ := materialise_name hopen
      obtain rfl := Option.some.inj (hcopy.symm.trans hread)
      rw [v.inspect_eq hP] at hinspect
      obtain ⟨rfl, -⟩ := Prod.mk.inj (Except.ok.inj hinspect)
      have hsame : grantKey L held' device = grantKey L held device := by
        simp only [grantKey, hgrant.terms, hgrant.envelope]
      have hnames : ∀ terms' dek', grantKey L held' device = .ok (terms', dek') →
          decryptName L.toPrimitives v.header dek' = .ok mat.name := by
        intro terms' dek' hkey'
        rw [hsame, hkey] at hkey'
        cases hkey'
        exact hname
      obtain ⟨_, _, -, v', rfl, hopts, hthere, hnotice⟩ := v.saved_next hP hfile hedited hnames hsave
      obtain rfl := Option.some.inj (hnext.symm.trans hthere)
      exact ⟨v', entry', rfl, rfl, by rw [Version.name, hopts]; rfl,
        .of_notice hP hnext hnotice htaken⟩

end Course

end Zbacs.Agent
