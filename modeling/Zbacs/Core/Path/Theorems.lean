import Zbacs.Core.Container.Opening
import Zbacs.Core.Path

namespace Zbacs.Core

open Zbacs.Lib

variable {P : Primitives} {env : SealEnv} {fs : Fs}

-- No system call of the seal fails.
structure SealEnv.Quiet (env : SealEnv) : Prop where
  openInput : env.openInput = false
  createTmp : env.createTmp = false
  sink : env.sink.Total
  sync : env.sync = false
  rename : env.rename = false

theorem SealEnv.calm_quiet : SealEnv.calm.Quiet := ⟨rfl, rfl, Sink.memory_total, rfl, rfl⟩

-- A file name with another extension is another name.
theorem withExtension_ne {p : Path} (hp : p ≠ []) : withExtension p "zbacs.tmp" ≠ p := by
  obtain ⟨front, name, rfl⟩ := (List.eq_nil_or_concat p).resolve_left hp
  rw [List.concat_eq_append]
  intro heq
  unfold withExtension at heq
  simp only [List.getLast?_concat, List.dropLast_concat, List.append_cancel_left_eq,
    List.cons.injEq, and_true] at heq
  have hchars := congrArg String.toList heq
  rw [String.toList_ofList] at hchars
  generalize name.toList = chars at hchars
  have hext : ("zbacs.tmp".toList).length = 9 := rfl
  split_ifs at hchars with hstem
  · have hlen := congrArg List.length hchars
    rw [List.length_append, List.length_cons, hext] at hlen
    omega
  · -- the last dot of what was put together is the one in the extension
    have hshort : (chars.reverse.takeWhile (· ≠ '.')).length = 3 := by
      rw [← hchars, List.reverse_append]
      rfl
    have hlen := congrArg List.length hchars
    rw [List.length_append, List.length_cons, hext, List.length_take, hshort] at hlen
    omega

theorem withExtension_ne_nil {p : Path} (hp : p ≠ []) : withExtension p "zbacs.tmp" ≠ [] := by
  obtain ⟨front, name, rfl⟩ := (List.eq_nil_or_concat p).resolve_left hp
  simp [withExtension]

-- However a seal to a path goes, only that path and the temporary file beside it may change.
theorem lookup_sealSignedToPath {inPath outPath : Path} (ownerPk : FixedBytes 32)
    (signer : SigningKeys) (opts : SealOptions) (rng : SealRandom) {q : Path} (hout : q ≠ outPath)
    (htmp : q ≠ withExtension outPath "zbacs.tmp") :
    (sealSignedToPath P inPath outPath ownerPk signer opts rng env fs).2.lookup q = fs.lookup q := by
  unfold sealSignedToPath
  cases fs.readFile inPath with
  | none => rfl
  | some plaintext =>
      dsimp only
      split
      · split
        · rfl
        · split
          · exact Fs.lookup_insert_ne _ htmp
          · split
            · exact Fs.lookup_insert_ne _ htmp
            · split
              · exact Fs.lookup_insert_ne _ htmp
              · split
                · exact Fs.lookup_insert_ne _ htmp
                · rename_i hrename
                  rw [Fs.lookup_rename_ne hrename htmp hout, Fs.lookup_insert_ne _ htmp]
      · rfl

theorem lookup_resealAsRecipientToPath {plaintextPath containerPath : Path} (prevDek : Dek)
    (signer : SigningKeys) (policy : Policy) (rng : SealRandom) {q : Path} (hout : q ≠ containerPath)
    (htmp : q ≠ withExtension containerPath "zbacs.tmp") :
    (resealAsRecipientToPath P plaintextPath containerPath prevDek signer policy rng env fs).2.lookup q =
      fs.lookup q := by
  unfold resealAsRecipientToPath
  repeat' split
  any_goals rfl
  exact lookup_sealSignedToPath _ _ _ _ hout htmp

-- A seal to a path that nothing stands in the way of: the container is there, and only
-- the temporary file beside it was touched.
theorem sealSignedToPath_ok (hP : P.Lawful) {opts : SealOptions} (hopts : opts.Sealable P)
    {ownerPk : FixedBytes 32} (hpk : P.hpke.ValidKey ownerPk.bytes) (signer : SigningKeys)
    (rng : SealRandom) (hquiet : env.Quiet) {inPath outPath : Path} {plaintext : Bytes}
    (hin : fs.readFile inPath = some plaintext) (hlen : plaintext.length < 2 ^ 64)
    (htmp : fs.lookup (withExtension outPath "zbacs.tmp") ≠ some .dir)
    (hout : fs.lookup outPath ≠ some .dir) :
    ∃ h out headerBytes frames fs',
      sealSignedToPath P inPath outPath ownerPk signer opts rng env fs = (.ok h, fs') ∧
      sealSigned P (.ofData plaintext env.offer hlen) env.sink ownerPk signer opts rng =
        .ok (h, out) ∧
      SealedAs P plaintext ownerPk signer opts rng h out headerBytes frames ∧
      fs'.readFile outPath = some out ∧
      ∀ q, q ≠ outPath → q ≠ withExtension outPath "zbacs.tmp" → fs'.lookup q = fs.lookup q := by
  obtain ⟨h, out, hseal⟩ := sealSigned_ok hP hopts.accepted (.ofData plaintext env.offer hlen) hquiet.sink hpk
    signer rng
  obtain ⟨headerBytes, frames, s⟩ := sealSigned_eq_ok hseal
  generalize htmpEq : withExtension outPath "zbacs.tmp" = tmp at htmp ⊢
  have hfree : (fs.insert tmp (.file out false)).lookup outPath ≠ some .dir := by
    by_cases hsame : outPath = tmp
    · rw [hsame, Fs.lookup_insert_self]
      simp
    · rw [Fs.lookup_insert_ne _ hsame]
      exact hout
  obtain ⟨fs', hrename, hthere, -, hother⟩ :=
    Fs.rename_ok (Fs.lookup_insert_self tmp (.file out false)) hfree
  have hopen : env.openInput = false ∧ plaintext.length < 2 ^ 64 := ⟨hquiet.openInput, hlen⟩
  have hnew : ¬(env.createTmp = true ∨ fs.lookup tmp = some .dir) := by
    simp [hquiet.createTmp, htmp]
  refine ⟨h, out, headerBytes, frames, fs', ?_, hseal, s, by simp only [Fs.readFile, hthere], ?_⟩
  · simp only [sealSignedToPath, hin, dif_pos hopen, htmpEq, if_neg hnew, hseal, hquiet.sync, hquiet.rename,
      Bool.false_eq_true, if_false, hrename]
  · intro q hq hq'
    rw [hother q hq' hq, Fs.lookup_insert_ne _ hq']

-- A seal to a path that went through: what it read, what it wrote, and what else it touched.
theorem sealSignedToPath_eq_ok {inPath outPath : Path} {ownerPk : FixedBytes 32}
    {signer : SigningKeys} {opts : SealOptions} {rng : SealRandom} {h : Header} {fs' : Fs}
    (hseal : sealSignedToPath P inPath outPath ownerPk signer opts rng env fs = (.ok h, fs')) :
    ∃ plaintext out headerBytes frames, fs.readFile inPath = some plaintext ∧
      plaintext.length < 2 ^ 64 ∧
      SealedAs P plaintext ownerPk signer opts rng h out headerBytes frames ∧
      fs'.readFile outPath = some out := by
  unfold sealSignedToPath at hseal
  cases hin : fs.readFile inPath with
  | none =>
      rw [hin] at hseal
      cases hseal
  | some plaintext =>
      -- Every other way through ends in an error.
      simp only [hin] at hseal
      split at hseal
      swap
      · cases hseal
      rename_i hopen
      split at hseal
      · cases hseal
      split at hseal
      · cases hseal
      rename_i header out hsigned
      split at hseal
      · cases hseal
      split at hseal
      · cases hseal
      split at hseal
      · cases hseal
      rename_i hrename
      cases hseal
      obtain ⟨headerBytes, frames, s⟩ := sealSigned_eq_ok hsigned
      have hthere := Fs.lookup_of_rename (Fs.lookup_insert_self _ _) hrename
      exact ⟨plaintext, out, headerBytes, frames, rfl, hopen.2, s, by simp only [Fs.readFile, hthere]⟩

section Reseal

variable {plaintext out headerBytes frames : Bytes} {ownerPk : FixedBytes 32} {signer : SigningKeys}
  {opts : SealOptions} {rng : SealRandom} {h : Header}

namespace SealedAs

theorem ver_pos (s : SealedAs P plaintext ownerPk signer opts rng h out headerBytes frames)
    (hopts : opts.WithinLimits) : 1 ≤ h.body.ver.toNat := by
  have hne := ((nextVersion_consistent_iff s.header.version).mpr hopts.prev).1
  have : h.body.ver.toNat ≠ 0 := fun h0 => hne (UInt32.toNat_inj.mp (by rw [h0, UInt32.toNat_zero]))
  omega

-- What was within the limits stays there.
theorem recipientOptions_withinLimits
    (s : SealedAs P plaintext ownerPk signer opts rng h out headerBytes frames)
    (hopts : opts.WithinLimits) (hash : HeaderHash) (policy : Policy) {name : String} :
    (recipientOptions h hash policy name).WithinLimits where
  ownerPos := by
    simp only [recipientOptions, SealOptions.new, s.header.own]
    exact hopts.ownerPos
  ownerMax := by
    simp only [recipientOptions, SealOptions.new, s.header.own]
    exact hopts.ownerMax
  recipientsMax := Nat.zero_le _
  prev := by
    rintro p ⟨⟩
    exact s.ver_pos hopts

-- Whatever was sealed can be resealed by whoever can read it.
theorem recipientOptions_sealable
    (s : SealedAs P plaintext ownerPk signer opts rng h out headerBytes frames)
    (hopts : opts.Sealable P) (hver : h.body.ver.toNat < 2 ^ 32 - 1) (hash : HeaderHash)
    (policy : Policy) : (recipientOptions h hash policy opts.fileName).Sealable P where
  chunkPos := by
    simp only [recipientOptions, s.chunk_toNat]
    exact s.chunkPos
  chunkMax := by
    simp only [recipientOptions, s.chunk_toNat]
    exact s.chunkMax
  name := s.name_eq.1
  ownerPos := (s.recipientOptions_withinLimits hopts.withinLimits hash policy).ownerPos
  ownerMax := (s.recipientOptions_withinLimits hopts.withinLimits hash policy).ownerMax
  recipients := by
    intro pk hpk
    cases hpk
  recipientsMax := Nat.zero_le _
  prev := by
    rintro p ⟨⟩
    exact ⟨s.ver_pos hopts.withinLimits, hver⟩

theorem decryptName_eq (s : SealedAs P plaintext ownerPk signer opts rng h out headerBytes frames)
    (hP : P.Lawful) : decryptName P h rng.dek = .ok opts.fileName := by
  have hname := hP.aead.decrypt_encrypt s.name_eq.2
  rw [← s.header.np] at hname
  exact Core.decryptName_eq hname s.name_eq.1

end SealedAs

-- The next version, by a recipient: the container on disk is replaced by one the owner can
-- open, for what was in the plaintext file.
theorem resealAsRecipientToPath_ok (hP : P.Lawful)
    (s : SealedAs P plaintext ownerPk signer opts rng h out headerBytes frames)
    (hopts : opts.Sealable P) (hver : h.body.ver.toNat < 2 ^ 32 - 1)
    (hpk : P.hpke.ValidKey ownerPk.bytes) (signer' : SigningKeys) (policy : Policy)
    (rng' : SealRandom) (hquiet : env.Quiet) {plaintextPath containerPath : Path} {edited : Bytes}
    (hin : fs.readFile plaintextPath = some edited) (hlen : edited.length < 2 ^ 64)
    (hfile : fs.readFile containerPath = some out)
    (htmp : fs.lookup (withExtension containerPath "zbacs.tmp") ≠ some .dir) :
    ∃ h' out' headerBytes' frames' fs',
      resealAsRecipientToPath P plaintextPath containerPath rng.dek signer' policy rng' env fs =
        (.ok h', fs') ∧
      sealSigned P (.ofData edited env.offer hlen) env.sink ownerPk signer'
        (recipientOptions h (P.sha256 headerBytes) policy opts.fileName) rng' = .ok (h', out') ∧
      SealedAs P edited ownerPk signer'
        (recipientOptions h (P.sha256 headerBytes) policy opts.fileName) rng' h' out' headerBytes'
        frames' ∧
      fs'.readFile containerPath = some out' ∧
      ∀ q, q ≠ containerPath → q ≠ withExtension containerPath "zbacs.tmp" →
        fs'.lookup q = fs.lookup q := by
  have hout : fs.lookup containerPath ≠ some .dir := by
    intro hdir
    simp [Fs.readFile, hdir] at hfile
  obtain ⟨h', out', headerBytes', frames', fs', hpath, hseal, s', hthere, hother⟩ :=
    sealSignedToPath_ok hP (s.recipientOptions_sealable hopts hver (P.sha256 headerBytes) policy) hpk
      signer' rng' hquiet hin hlen htmp hout
  refine ⟨h', out', headerBytes', frames', fs', ?_, hseal, s', hthere, hother⟩
  simp only [resealAsRecipientToPath, hfile, s.inspect_eq hP hopts.withinLimits, s.header.opub,
    s.decryptName_eq hP, hpath]

-- A container that was sealed to its owner, by whomever, for this content.
structure SealedFor (P : Primitives) (owner : DeviceKeys P) (content container : Bytes) : Prop where
  made : ∃ signer opts rng h headerBytes frames,
    SealedAs P content owner.x25519Pk signer opts rng h container headerBytes frames ∧
      opts.WithinLimits
  short : content.length < 2 ^ 64

-- What the owner gets from a container.
def OpensTo (P : Primitives) (owner : DeviceKeys P) (container content : Bytes) : Prop :=
  ∀ offer (sink : Sink), sink.Total →
    ∃ opened, openContainer P (.ofData container offer) sink owner = ⟨.ok opened, content⟩

theorem OpensTo.unique {owner : DeviceKeys P} {container content content' : Bytes}
    (h : OpensTo P owner container content) (h' : OpensTo P owner container content') :
    content = content' := by
  obtain ⟨opened, hopen⟩ := h (fun _ => 0) .memory Sink.memory_total
  obtain ⟨opened', hopen'⟩ := h' (fun _ => 0) .memory Sink.memory_total
  exact congrArg OpenRun.written (hopen.symm.trans hopen')

theorem SealedFor.opensTo {owner : DeviceKeys P} {container content : Bytes}
    (h : SealedFor P owner content container) (hP : P.Lawful) : OpensTo P owner container content := by
  obtain ⟨signer, opts, rng, header, headerBytes, frames, s, hopts⟩ := h.made
  exact fun offer sink hs => ⟨_, s.openContainer_owner hP hopts h.short hs (Reader.rest_ofData _ offer)⟩

-- Whatever key the reseal was given for the name, the next version is for the owner again.
theorem SealedFor.reseal {owner : DeviceKeys P} {container content : Bytes}
    (h : SealedFor P owner content container) (hP : P.Lawful) {plaintextPath containerPath : Path}
    {prevDek : Dek} {signer : SigningKeys} {policy : Policy} {rng : SealRandom} {header : Header}
    {fs' : Fs} (hfile : fs.readFile containerPath = some container)
    (hreseal : resealAsRecipientToPath P plaintextPath containerPath prevDek signer policy rng env fs =
      (.ok header, fs')) :
    ∃ content' container', fs.readFile plaintextPath = some content' ∧
      fs'.readFile containerPath = some container' ∧ SealedFor P owner content' container' := by
  obtain ⟨_, opts, rng', prev, headerBytes, frames, s, hopts⟩ := h.made
  unfold resealAsRecipientToPath at hreseal
  simp only [hfile, s.inspect_eq hP hopts, s.header.opub] at hreseal
  split at hreseal
  · cases hreseal
  · obtain ⟨content', container', headerBytes', frames', hread, hshort, s', hthere⟩ :=
      sealSignedToPath_eq_ok hreseal
    exact ⟨content', container', hread, hthere,
      ⟨_, _, _, _, _, _, s', s.recipientOptions_withinLimits hopts _ _⟩, hshort⟩

-- Version and predecessor of a reseal.
theorem SealedAs.version_recipientOptions {prev : Header} {prevHash : HeaderHash} {policy : Policy}
    {name : String}
    (s : SealedAs P plaintext ownerPk signer (recipientOptions prev prevHash policy name) rng h out
      headerBytes frames) (hver : prev.body.ver.toNat < 2 ^ 32 - 1) :
    h.body.ver = prev.body.ver + 1 ∧ h.body.ver.toNat = prev.body.ver.toNat + 1 ∧
      h.body.prev = some prevHash := by
  have hversion := s.header.version
  simp only [recipientOptions, PrevVersion.of, nextVersion] at hversion
  rw [if_pos (by omega)] at hversion
  obtain ⟨hprev, hnext⟩ := Prod.mk.inj (Except.ok.inj hversion)
  refine ⟨hnext.symm, ?_, hprev.symm⟩
  rw [← hnext, UInt32.toNat_add, UInt32.toNat_one, Nat.mod_eq_of_lt (by omega)]

end Reseal

end Zbacs.Core
