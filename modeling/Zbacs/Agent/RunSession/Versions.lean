import Zbacs.Agent.Reference

namespace Zbacs.Agent

open Zbacs.Lib Zbacs.Core Zbacs.Proto Zbacs.Session

section

variable (L : Libraries) (running : Running L) (mat : Materialised) (expiry : UInt64)
  (content : Round → Bytes)

def Round.saves (round : Round) : Bool := round.event = some .saved

-- A round in which nothing goes wrong and only the viewer writes: the session goes on, the
-- container is left alone, and a save finds its content and every system call working.
structure Undisturbed (round : Round) : Prop where
  goesOn : roundEnd expiry round = none
  container : ∀ fs, (round.disk fs).readFile running.sealed = fs.readFile running.sealed
  room : ∀ fs, fs.lookup (withExtension running.sealed "zbacs.tmp") ≠ some .dir →
    (round.disk fs).lookup (withExtension running.sealed "zbacs.tmp") ≠ some .dir
  saved : round.saves → ∀ fs, (round.disk fs).readFile mat.plain = some (content round)
  short : (content round).length < 2 ^ 64
  quiet : round.save.disk.Quiet
  relay : round.save.relay = .ok ()

-- What a save is to leave behind: on disk the version with this number, which follows the one
-- that was there and opens for the owner, one notice of it, and a session back in `Open`.
structure VersionSaved (owner : DeviceKeys L.toPrimitives) (before after : LoopState) (ver : Nat)
    (saved : Bytes) : Prop where
  onDisk : ∃ old prev prevHash container header hash,
    before.fs.readFile running.sealed = some old ∧
    (∀ offer, inspect L.toPrimitives (.ofData old offer) = .ok (prev, prevHash)) ∧
    after.fs.readFile running.sealed = some container ∧
    (∀ offer, inspect L.toPrimitives (.ofData container offer) = .ok (header, hash)) ∧
    header.body.ver.toNat = ver ∧ header.body.prev = some prevHash ∧
    (∀ offer (sink : Sink), sink.Total → ∃ opened,
      openContainer L.toPrimitives (.ofData container offer) sink owner = ⟨.ok opened, saved⟩) ∧
    (after.sent.filter (·.ver = header.body.ver)).length = 1
  opened : after.held.session.state = .opened

-- Every save of these rounds becomes a version, counted from `ver` on.
def EachSaveIsVersion (owner : DeviceKeys L.toPrimitives) (ver : Nat) (rounds : List Round)
    (s : LoopState) : Prop :=
  ∀ pre round post, rounds = pre ++ round :: post → round.saves →
    ∃ before after, runRounds L running mat expiry pre s = (before, none) ∧
      runRounds L running mat expiry (pre ++ [round]) s = (after, none) ∧
      VersionSaved L running owner before after (ver + (pre.countP Round.saves + 1)) (content round)

-- No collision among the versions of this run: whenever a save comes next and another version
-- than `ver` is on disk, its hash is another one than `hash`.
def VersionsDiffer (ver : UInt32) (hash : HeaderHash) (rounds : List Round) (s : LoopState) : Prop :=
  ∀ pre round post, rounds = pre ++ round :: post → round.saves →
    ∀ s', runRounds L running mat expiry pre s = (s', none) →
      ∀ container header hash' offer, s'.fs.readFile running.sealed = some container →
        inspect L.toPrimitives (.ofData container offer) = .ok (header, hash') →
        header.body.ver ≠ ver → hash' ≠ hash

end

section

variable {L : Libraries} {running : Running L} {mat : Materialised} {expiry : UInt64}
  {content : Round → Bytes}

-- Rounds without a save leave the session and the container alone.
theorem runRounds_idle {rounds : List Round}
    (hrounds : ∀ round ∈ rounds, Undisturbed L running mat expiry content round)
    (hidle : rounds.countP Round.saves = 0) (s : LoopState) :
    ∃ fs', runRounds L running mat expiry rounds s = ({ s with fs := fs' }, none) ∧
      fs'.readFile running.sealed = s.fs.readFile running.sealed ∧
      (s.fs.lookup (withExtension running.sealed "zbacs.tmp") ≠ some .dir →
        fs'.lookup (withExtension running.sealed "zbacs.tmp") ≠ some .dir) := by
  induction rounds generalizing s with
  | nil => exact ⟨s.fs, rfl, rfl, id⟩
  | cons round rest ih =>
      obtain ⟨hround, hrest⟩ := List.forall_mem_cons.mp hrounds
      rw [List.countP_cons] at hidle
      have hevent : round.event ≠ some .saved := by
        intro hsaved
        simp [Round.saves, hsaved] at hidle
      obtain ⟨fs', hgo, hfile, hroom⟩ := ih hrest (by omega) { s with fs := round.disk s.fs }
      refine ⟨fs', ?_, hfile.trans (hround.container s.fs), fun h => hroom (hround.room s.fs h)⟩
      rw [runRounds, runRound_idle hround.goesOn hevent]
      exact hgo

-- The first round that saves.
theorem exists_first_save {rounds : List Round} (h : 0 < rounds.countP Round.saves) :
    ∃ pre round post, rounds = pre ++ round :: post ∧ round.saves ∧
      pre.countP Round.saves = 0 ∧ rounds.countP Round.saves = 1 + post.countP Round.saves := by
  obtain ⟨round, hmem, hsaves⟩ := List.countP_pos_iff.mp h
  obtain ⟨first, hfind⟩ := Option.isSome_iff_exists.mp
    (List.find?_isSome.mpr ⟨round, hmem, hsaves⟩)
  obtain ⟨hfirst, pre, post, hsplit, hpre⟩ := List.find?_eq_some_iff_append.mp hfind
  have hnone : pre.countP Round.saves = 0 := by
    rw [List.countP_eq_zero]
    intro r hr hsaved
    have := hpre r hr
    simp [hsaved] at this
  refine ⟨pre, first, post, hsplit, hfirst, hnone, ?_⟩
  rw [hsplit, List.countP_append, List.countP_cons, hnone, if_pos hfirst]
  omega

section Session

variable {plaintext out headerBytes frames : Bytes} {ownerPk : FixedBytes 32} {author : SigningKeys}
  {opts : SealOptions} {rng : SealRandom} {h : Header} {owner : DeviceKeys L.toPrimitives}
  {terms : AccessGrantTerms} {rounds : List Round} {s : LoopState}

-- A grant names one version. After the first save another one is on disk.
theorem not_eachSaveIsVersion
    (hrounds : ∀ round ∈ rounds, Undisturbed L running mat expiry content round)
    (hstate : s.held.session.state = .opened) (hedit : s.held.session.permission = some .edit)
    (hterms : s.held.terms = some terms) {ver : UInt32}
    (hfresh : VersionsDiffer L running mat expiry ver terms.headerHash rounds s)
    (htwo : 2 ≤ rounds.countP Round.saves) :
    ¬EachSaveIsVersion L running mat expiry content owner ver.toNat rounds s := by
  intro heach
  obtain ⟨pre, first, rest, hsplit, hfirst, hpre, hcount⟩ :=
    exists_first_save (show 0 < rounds.countP Round.saves by omega)
  obtain ⟨mid, second, post, hrest, hsecond, hmid, -⟩ :=
    exists_first_save (show 0 < rest.countP Round.saves by omega)
  subst hrest
  obtain ⟨before, after, -, hafter, hsaved, -⟩ := heach pre first _ hsplit hfirst
  obtain ⟨-, -, -, container, header, hash, -, -, hfile, hinspect, hver, -⟩ := hsaved
  have hsplit' : rounds = (pre ++ first :: mid) ++ second :: post := by simp [hsplit]
  obtain ⟨before', after', hbefore', hafter', -⟩ := heach _ second post hsplit' hsecond
  -- nothing happens to the container between the two saves
  have hmidRounds : ∀ round ∈ mid, Undisturbed L running mat expiry content round := by
    intro round hround
    exact hrounds round (by simp [hsplit, hround])
  obtain ⟨fs', hidle, hsame, -⟩ := runRounds_idle hmidRounds hmid after
  have hstep : before' = { after with fs := fs' } := by
    rw [show pre ++ first :: mid = (pre ++ [first]) ++ mid by simp, runRounds_append, hafter] at hbefore'
    simp only [hidle, Prod.mk.injEq, and_true] at hbefore'
    exact hbefore'.symm
  have hdisk : before'.fs.readFile running.sealed = some container := by
    rw [hstep]
    exact hsame.trans hfile
  have hround := (runRounds_concat hbefore').mp hafter'
  -- the second save goes through only if the granted version is still there
  obtain ⟨hopened, hgrant⟩ := runRounds_running hstate hbefore'
  have hundisturbed := hrounds second (by simp [hsplit'])
  have hmakes : MakesSave expiry second before' :=
    ⟨hundisturbed.goesOn, by simpa [Round.saves] using hsecond, hgrant.permission.trans hedit⟩
  rcases save_cases L before'.held.saving running.device running.signer running.sealed mat second.save
    (second.disk before'.fs) with ⟨e, hfail⟩ | ⟨saved, -, terms', dek, container', prev, hkey, hfile',
      hinspect'⟩
  · obtain ⟨updates, hfails⟩ := runRound_fails hopened hmakes hfail
    rw [hround] at hfails
    cases hfails
  · obtain ⟨hterms', -⟩ := grantKey_eq_ok.mp hkey
    have heq : some terms' = some terms := hterms'.symm.trans (hgrant.terms.trans hterms)
    cases heq
    rw [hundisturbed.container, hdisk] at hfile'
    cases hfile'
    refine hfresh _ second post hsplit' hsecond before' hbefore' container header hash
      second.save.disk.offer hdisk (hinspect _) ?_ ?_
    · intro hsameVer
      rw [hsameVer] at hver
      omega
    · rw [hinspect] at hinspect'
      cases hinspect'
      rfl

-- The only save of a session becomes a version.
theorem eachSaveIsVersion_once (hP : L.toPrimitives.Lawful)
    (sealing : SealedAs L.toPrimitives plaintext owner.x25519Pk author opts rng h out headerBytes frames)
    (hopts : opts.Sealable L.toPrimitives) (hver : h.body.ver.toNat < 2 ^ 32 - 1)
    (hrounds : ∀ round ∈ rounds, Undisturbed L running mat expiry content round)
    (hstate : s.held.session.state = .opened) (hedit : s.held.session.permission = some .edit)
    (hsent : s.sent = []) (hkey : grantKey L s.held running.device = .ok (terms, rng.dek))
    (hversion : terms.headerHash = L.sha256 headerBytes)
    (hfile : s.fs.readFile running.sealed = some out)
    (hroom : s.fs.lookup (withExtension running.sealed "zbacs.tmp") ≠ some .dir)
    (honce : rounds.countP Round.saves = 1) :
    EachSaveIsVersion L running mat expiry content owner h.body.ver.toNat rounds s := by
  intro pre round post hsplit hsaves
  rw [hsplit, List.countP_append, List.countP_cons, if_pos hsaves] at honce
  have hidle : pre.countP Round.saves = 0 := by omega
  have hpre : ∀ r ∈ pre, Undisturbed L running mat expiry content r := by
    intro r hr
    exact hrounds r (by simp [hsplit, hr])
  have hround := hrounds round (by simp [hsplit])
  obtain ⟨fs', hgo, hsame, hroom'⟩ := runRounds_idle hpre hidle s
  let before : LoopState := { s with fs := fs' }
  have hmakes : MakesSave expiry round before :=
    ⟨hround.goesOn, by simpa [Round.saves] using hsaves, hedit⟩
  have hopts' := sealing.recipientOptions_sealable hopts hver (L.sha256 headerBytes) h.body.pol
  obtain ⟨h', out', headerBytes', frames', saved, hannounced, -, hnotice, -, s', hthere⟩ :=
    save_ok before.held.saving running.device running.signer running.sealed mat round.save
      (round.disk fs') hP sealing hopts hver owner.validKey hround.quiet hround.relay rfl hkey hversion
      (((hround.container fs').trans hsame).trans hfile) (hround.saved hsaves fs') hround.short
      (hround.room fs' (hroom' hroom))
  obtain ⟨updates, hrun⟩ := @runRound_saves L running mat expiry round before hstate hmakes saved
    hannounced
  obtain ⟨-, hnext, hprev⟩ := s'.version_recipientOptions hver
  refine ⟨before, _, hgo, (runRounds_concat hgo).mpr hrun, ?_⟩
  refine ⟨⟨out, h, L.sha256 headerBytes, out', h', L.sha256 headerBytes', hsame.trans hfile,
    sealing.inspect_eq hP hopts.withinLimits, hthere, s'.inspect_eq hP hopts'.withinLimits, ?_, hprev, ?_, ?_⟩, rfl⟩
  · rw [hidle, hnext]
  · intro offer sink htotal
    have howner : ∀ pk ∈ [owner.x25519Pk.bytes], keyIdOf L.toPrimitives pk = owner.keyId →
        pk = owner.x25519Pk.bytes := by
      intro pk hpk _
      exact List.mem_singleton.mp hpk
    exact ⟨_, s'.openContainer_eq hP hopts'.withinLimits hround.short htotal List.mem_cons_self howner
      (Reader.rest_ofData out' offer)⟩
  · simp [before, hsent, hnotice]

-- In an undisturbed edit session that saves at all, each save becomes a version if and only if
-- there is one save, and a version number left for it.
theorem eachSaveIsVersion_iff {script : Script} {fs : Fs} (hP : L.toPrimitives.Lawful)
    (sealing : SealedAs L.toPrimitives plaintext owner.x25519Pk author opts rng h out headerBytes frames)
    (hopts : opts.Sealable L.toPrimitives)
    (hopen : (openSession L running script fs).result = .ok mat)
    (hedit : running.held.session.permission = some .edit)
    (hkey : grantKey L running.held running.device = .ok (terms, rng.dek))
    (hversion : terms.headerHash = L.sha256 headerBytes)
    (hfile : (openSession L running script fs).fs.readFile running.sealed = some out)
    (hroom : (openSession L running script fs).fs.lookup
      (withExtension running.sealed "zbacs.tmp") ≠ some .dir)
    (hrounds : ∀ round ∈ rounds, Undisturbed L running mat (expiryOf running.held) content round)
    (hfresh : VersionsDiffer L running mat (expiryOf running.held) h.body.ver terms.headerHash rounds
      (loopStart (openSession L running script fs)))
    (hsaves : 1 ≤ rounds.countP Round.saves) :
    EachSaveIsVersion L running mat (expiryOf running.held) content owner h.body.ver.toNat rounds
        (loopStart (openSession L running script fs)) ↔
      rounds.countP Round.saves = 1 ∧ h.body.ver.toNat < 2 ^ 32 - 1 := by
  obtain ⟨hheld, -, -⟩ := materialise_eq_ok hopen
  have hstart : (loopStart (openSession L running script fs)).held = { running.held with session :=
      { running.held.session with opens := running.held.session.opens + 1, state := .opened } } := hheld
  have hterms := (grantKey_eq_ok.mp hkey).1
  constructor
  · intro heach
    constructor
    · by_contra hcount
      refine not_eachSaveIsVersion hrounds (by rw [hstart]) (by rw [hstart]; exact hedit)
        (by rw [hstart]; exact hterms) hfresh (by omega) heach
    · obtain ⟨pre, round, post, hsplit, hround, hpre, -⟩ := exists_first_save hsaves
      obtain ⟨_, _, -, -, ⟨_, _, _, _, header, _, -, -, -, -, hver, -⟩, -⟩ :=
        heach pre round post hsplit hround
      have := header.body.ver.toNat_lt
      omega
  · rintro ⟨honce, hver⟩
    have hkey' : grantKey L (loopStart (openSession L running script fs)).held running.device =
        .ok (terms, rng.dek) := by
      rw [hstart]
      exact hkey
    exact eachSaveIsVersion_once hP sealing hopts hver hrounds (by rw [hstart])
      (by rw [hstart]; exact hedit) rfl hkey' hversion hfile hroom honce

end Session

end

namespace Reference

-- The viewer saves this content.
def saveRound (content : Bytes) : Round :=
  round (fun fs => fs.insert plain (.file content false)) (some .saved) false

def contentOf (r : Round) : Bytes := ((r.disk .empty).readFile plain).getD []

theorem saveRound_undisturbed (held : Held) {mat : Materialised} (hmat : mat.plain = plain)
    {expiry : UInt64} (hexpiry : 131 < expiry) {content : Bytes} (hlen : content.length < 2 ^ 64) :
    Undisturbed libraries (running held) mat expiry contentOf (saveRound content) where
  goesOn := by
    have hopen : ¬expiry ≤ 131 := UInt64.not_le.mpr hexpiry
    simp [roundEnd, saveRound, round, hopen]
  container fs := by
    have hne : sealed ≠ plain := by simp [plain, base, sealed]
    simp only [saveRound, round, running, Fs.readFile, Fs.lookup_insert_ne _ hne]
  room fs hroom := by
    have hne : withExtension sealed "zbacs.tmp" ≠ plain := by
      simp [show withExtension sealed "zbacs.tmp" = ["home", "a.zbacs.tmp"] by decide, plain, base]
    simp only [saveRound, round, running, Fs.lookup_insert_ne _ hne]
    exact hroom
  saved _ fs := by
    rw [hmat]
    simp [saveRound, round, contentOf, Fs.readFile]
  short := by
    simpa [contentOf, saveRound, round, Fs.readFile] using hlen
  quiet := SealEnv.calm_quiet
  relay := rfl

-- An edit session under a fresh grant, when its loop starts: the container is untouched.
theorem editSession {policy : Policy} {h : Header} {out headerBytes frames : Bytes}
    (s : SealedAs libraries.toPrimitives Core.Reference.input.data
      Core.Reference.owner.sealing.x25519Pk Core.Reference.owner.signing (options policy)
      Core.Reference.draws h out headerBytes frames) {t : AccessGrantTerms}
    (hversion : t.headerHash = libraries.sha256 headerBytes) (rounds : List Round) :
    ∃ mat, (openSession libraries (running (granted t .edit)) (script rounds) (disk out)).result =
        .ok mat ∧ mat.plain = plain ∧
      (openSession libraries (running (granted t .edit)) (script rounds)
        (disk out)).fs.readFile sealed = some out ∧
      (openSession libraries (running (granted t .edit)) (script rounds) (disk out)).fs.lookup
        (withExtension sealed "zbacs.tmp") ≠ some .dir := by
  obtain ⟨effects, fs', hopen, -, -, hframe⟩ := openSession_granted s hversion .edit rounds
  have htmp : withExtension sealed "zbacs.tmp" = ["home", "a.zbacs.tmp"] := by decide
  have hhome : ∀ name, fs'.lookup ["home", name] = (disk out).lookup ["home", name] := by
    intro name
    have hnot : ["home", name] ∉ Fs.ancestors base := by simp [Fs.mem_ancestors, base]
    rw [hframe _ (by simp [base]), if_neg hnot]
  rw [hopen, htmp]
  refine ⟨_, rfl, rfl, ?_, ?_⟩
  · simp only [Fs.readFile, sealed, hhome]
    exact readFile_disk out
  · simp only [hhome, lookup_disk]
    simp [sealed]

-- The file as the owner sealed it is version 1.
theorem ver_eq {policy : Policy} {h : Header} {out headerBytes frames : Bytes}
    (s : SealedAs libraries.toPrimitives Core.Reference.input.data
      Core.Reference.owner.sealing.x25519Pk Core.Reference.owner.signing (options policy)
      Core.Reference.draws h out headerBytes frames) : h.body.ver = 1 := by
  have hversion : Except.ok (none, 1) = Except.ok (h.body.prev, h.body.ver) := s.header.version
  exact (Prod.mk.inj (Except.ok.inj hversion)).2.symm

theorem eachSaveIsVersion_iff_one_save : ∃ (container : Bytes) (held : Held) (mat : Materialised),
    (openSession libraries (running held) (script [saveRound [6]]) (disk container)).result = .ok mat ∧
    EachSaveIsVersion libraries (running held) mat 200 contentOf Core.Reference.owner.sealing 1
      [saveRound [6]]
      (loopStart (openSession libraries (running held) (script [saveRound [6]]) (disk container))) := by
  obtain ⟨h, out, headerBytes, frames, -, s⟩ := container_sealed .defaultPolicy
  let t := terms ⟨h.body.fid, libraries.sha256 headerBytes, h.body.own⟩ .edit 1
  obtain ⟨mat, hresult, hplain, hfile, hroom⟩ :=
    editSession s (show t.headerHash = _ from rfl) [saveRound [6]]
  have hver := ver_eq s
  have hrounds : ∀ r ∈ [saveRound [6]],
      Undisturbed libraries (running (granted t .edit)) mat 200 contentOf r := by
    intro r hr
    obtain rfl := List.mem_singleton.mp hr
    exact saveRound_undisturbed _ hplain (by decide) (by decide)
  have hfresh : VersionsDiffer libraries (running (granted t .edit)) mat 200 h.body.ver t.headerHash
      [saveRound [6]] (loopStart (openSession libraries (running (granted t .edit))
        (script [saveRound [6]]) (disk out))) := by
    intro pre r post hsplit _ s' hpre container header hash offer hfile' hinspect hne
    obtain rfl : pre = [] := by
      cases pre with
      | nil => rfl
      | cons _ pre => simp at hsplit
    cases hpre
    obtain rfl : container = out := Option.some.inj (hfile'.symm.trans hfile)
    exact absurd (s.eq_of_inspect libraries_lawful (options_sealable _).withinLimits hinspect).1
      fun h => hne (h ▸ rfl)
  have hiff := eachSaveIsVersion_iff libraries_lawful s (options_sealable _) hresult rfl
    (grantKey_eq rfl rfl) rfl hfile hroom hrounds hfresh (by decide)
  refine ⟨out, granted t .edit, mat, hresult, ?_⟩
  have heach := hiff.mpr ⟨by decide, by rw [hver]; decide⟩
  rw [hver] at heach
  exact heach

-- The hashes of the file's version 1 and of what a save makes of it.
def versionHashes (edited : Bytes) : Option (HeaderHash × HeaderHash) :=
  if hlen : edited.length < 2 ^ 64 then do
    let (h, _) ← (sealSigned libraries.toPrimitives Core.Reference.input .memory
      Core.Reference.owner.sealing.x25519Pk Core.Reference.owner.signing (options .defaultPolicy)
      Core.Reference.draws).toOption
    let hash ← (h.headerHash libraries.toPrimitives).toOption
    let (h', _) ← (sealSigned libraries.toPrimitives (.ofData edited (fun _ => 0) hlen) .memory
      Core.Reference.owner.sealing.x25519Pk device.signing
      (recipientOptions h hash h.body.pol "a.txt") Core.Reference.draws).toOption
    let hash' ← (h'.headerHash libraries.toPrimitives).toOption
    return (hash, hash')
  else none

theorem versionHashes_ne : ∀ hashes ∈ versionHashes [6], hashes.1 ≠ hashes.2 := by
  decide +kernel

theorem saved_hash_ne {h h' : Header} {out out' headerBytes headerBytes' : Bytes}
    (hlen : [(6 : UInt8)].length < 2 ^ 64)
    (hseal : sealSigned libraries.toPrimitives Core.Reference.input .memory
      Core.Reference.owner.sealing.x25519Pk Core.Reference.owner.signing (options .defaultPolicy)
      Core.Reference.draws = .ok (h, out))
    (hencode : h.encode libraries.toPrimitives = .ok headerBytes)
    (hseal' : sealSigned libraries.toPrimitives (.ofData [6] (fun _ => 0) hlen) .memory
      Core.Reference.owner.sealing.x25519Pk device.signing
      (recipientOptions h (libraries.sha256 headerBytes) h.body.pol "a.txt") Core.Reference.draws =
        .ok (h', out'))
    (hencode' : h'.encode libraries.toPrimitives = .ok headerBytes') :
    libraries.sha256 headerBytes' ≠ libraries.sha256 headerBytes := by
  have hhashes : versionHashes [6] =
      some (libraries.sha256 headerBytes, libraries.sha256 headerBytes') := by
    rw [versionHashes, dif_pos hlen, hseal]
    simp only [Except.toOption, Option.bind_eq_bind, Option.bind_some, Header.headerHash_eq hencode,
      hseal', Header.headerHash_eq hencode']
    rfl
  exact (versionHashes_ne _ hhashes).symm

-- Two saves: the second does not become a version.
theorem second_save_is_no_version : ∃ (container : Bytes) (held : Held) (mat : Materialised),
    (openSession libraries (running held) (script [saveRound [6], saveRound [7]])
      (disk container)).result = .ok mat ∧
    (∀ r ∈ [saveRound [6], saveRound [7]],
      Undisturbed libraries (running held) mat 200 contentOf r) ∧
    ¬EachSaveIsVersion libraries (running held) mat 200 contentOf Core.Reference.owner.sealing 1
      [saveRound [6], saveRound [7]]
      (loopStart (openSession libraries (running held) (script [saveRound [6], saveRound [7]])
        (disk container))) := by
  obtain ⟨h, out, headerBytes, frames, hseal, s⟩ := container_sealed .defaultPolicy
  let t := terms ⟨h.body.fid, libraries.sha256 headerBytes, h.body.own⟩ .edit 1
  let rounds := [saveRound [6], saveRound [7]]
  obtain ⟨mat, hresult, hplain, hfile, hroom⟩ := editSession s (show t.headerHash = _ from rfl) rounds
  have hver := ver_eq s
  have hrounds : ∀ r ∈ rounds,
      Undisturbed libraries (running (granted t .edit)) mat 200 contentOf r := by
    intro r hr
    rcases List.mem_pair.mp hr with rfl | rfl <;>
      exact saveRound_undisturbed _ hplain (by decide) (by decide)
  let start := loopStart (openSession libraries (running (granted t .edit)) (script rounds) (disk out))
  have hstart : start.held = _ := (materialise_eq_ok hresult).1
  have hopened : start.held.session.state = .opened := by rw [hstart]
  have hedit : start.held.session.permission = some .edit := by rw [hstart]; rfl
  have hterms : start.held.terms = some t := by rw [hstart]; rfl
  have hfresh : VersionsDiffer libraries (running (granted t .edit)) mat 200 h.body.ver t.headerHash
      rounds start := by
    intro pre r post hsplit _ s' hpre container header hash offer hfile' hinspect hne
    rcases pre with _ | ⟨first, _ | ⟨_, pre⟩⟩
    · cases hpre
      obtain rfl : container = out := Option.some.inj (hfile'.symm.trans hfile)
      exact absurd (s.eq_of_inspect libraries_lawful (options_sealable _).withinLimits hinspect).1
        fun h => hne (h ▸ rfl)
    · obtain rfl : first = saveRound [6] := (List.cons.inj hsplit).1.symm
      have hround := hrounds (saveRound [6]) List.mem_cons_self
      have hbound : h.body.ver.toNat < 2 ^ 32 - 1 := by rw [hver]; decide
      obtain ⟨h', out', headerBytes', frames', saved, hannounced, -, -, hseal', s₁, hthere⟩ :=
        save_ok start.held.saving device.keys device.signing sealed mat (saveRound [6]).save
          ((saveRound [6]).disk start.fs) libraries_lawful s (options_sealable _) hbound
          Core.Reference.owner.sealing.validKey hround.quiet rfl rfl
          (grantKey_eq hterms (by rw [Held.saving, hstart]; rfl)) rfl
          ((hround.container _).trans hfile) (hround.saved rfl _) hround.short (hround.room _ hroom)
      obtain ⟨updates, hrun⟩ := @runRound_saves libraries (running (granted t .edit)) mat 200
        (saveRound [6]) start hopened ⟨hround.goesOn, rfl, hedit⟩ saved hannounced
      have hs' := (runRounds_concat (show runRounds libraries _ mat 200 [] start = (start, none) from rfl)).mp hpre
      rw [hrun] at hs'
      cases hs'
      obtain rfl : container = out' := Option.some.inj (hfile'.symm.trans hthere)
      have hopts' := s.recipientOptions_sealable (options_sealable _) hbound
        (libraries.sha256 headerBytes) h.body.pol
      rw [(s₁.eq_of_inspect libraries_lawful hopts'.withinLimits hinspect).2]
      exact saved_hash_ne (by decide) hseal s.encoded hseal' s₁.encoded
    · simp [rounds] at hsplit
  have hnot := @not_eachSaveIsVersion libraries (running (granted t .edit)) mat 200 contentOf
    Core.Reference.owner.sealing t rounds start hrounds hopened hedit hterms h.body.ver hfresh (by decide)
  rw [hver] at hnot
  exact ⟨out, granted t .edit, mat, hresult, hrounds, hnot⟩

end Reference

end Zbacs.Agent
