import Mathlib.Data.List.Chain
import Zbacs.Core.Path.Limits

namespace Zbacs.Core

open Zbacs.Lib

variable {P : Primitives}

-- One version of a file: what was at its path after the step that wrote it, and the plaintext
-- of that step.
structure Version where
  container : Bytes
  plaintext : Bytes

-- A file that its owner locked, resealed any number of times by the owner or by whoever held the
-- key of the version before. The other files are free to change in between.
inductive History (P : Primitives) (owner : OwnerKeys P) (path : Path) : Dek → List Version → Prop where
  | first {inPath : Path} {opts : SealOptions} {rng : SealRandom} {env : SealEnv} {fs fs' : Fs}
      {h : Header} {container plaintext : Bytes} (hprev : opts.prev = none)
      (hin : fs.readFile inPath = some plaintext)
      (hseal : sealToPath P inPath path owner opts rng env fs = (.ok h, fs'))
      (hout : fs'.readFile path = some container) (hreadable : Readable P container) :
      History P owner path rng.dek [⟨container, plaintext⟩]
  | byOwner {dek : Dek} {versions : List Version} {last : Version} {plaintextPath : Path}
      {policy : Policy} {rng : SealRandom} {env : SealEnv} {fs fs' : Fs} {h : Header}
      {container plaintext : Bytes} (before : History P owner path dek (versions ++ [last]))
      (hfile : fs.readFile path = some last.container)
      (hin : fs.readFile plaintextPath = some plaintext)
      (hseal : resealToPath P plaintextPath path owner policy rng env fs = (.ok h, fs'))
      (hout : fs'.readFile path = some container) :
      History P owner path rng.dek (versions ++ [last] ++ [⟨container, plaintext⟩])
  | byRecipient {dek : Dek} {versions : List Version} {last : Version} {plaintextPath : Path}
      {signer : SigningKeys} {policy : Policy} {rng : SealRandom} {env : SealEnv} {fs fs' : Fs}
      {h : Header} {container plaintext : Bytes}
      (before : History P owner path dek (versions ++ [last]))
      (hfile : fs.readFile path = some last.container)
      (hin : fs.readFile plaintextPath = some plaintext)
      (hseal : resealAsRecipientToPath P plaintextPath path dek signer policy rng env fs =
        (.ok h, fs'))
      (hout : fs'.readFile path = some container) :
      History P owner path rng.dek (versions ++ [last] ++ [⟨container, plaintext⟩])

-- What a reseal must not change.
structure Identity where
  fid : FileId
  salt : Salt
  own : Bytes
  opub : Option (FixedBytes 32)
  chunk : UInt32

def Header.identity (h : Header) : Identity :=
  ⟨h.body.fid, h.body.salt, h.body.own, h.body.opub, h.body.chunk⟩

-- What is read without a key, and what the owner opens.
structure ReadAs (P : Primitives) (owner : OwnerKeys P) (name : String) (v : Version)
    (c : Header × HeaderHash) : Prop where
  inspected : ∀ offer, inspect P (.ofData v.container offer) = .ok c
  opened : ∀ offer sink, sink.Total → openContainer P (.ofData v.container offer) sink
    owner.sealing = ⟨.ok ⟨c.1, c.2, name⟩, v.plaintext⟩

structure Chained (P : Primitives) (owner : OwnerKeys P) (versions : List Version)
    (chain : List (Header × HeaderHash)) (identity : Identity) (name : String) : Prop where
  read : List.Forall₂ (ReadAs P owner name) versions chain
  verified : verifyVersionChain P chain = .ok ()
  numbered : chain.map (fun c => c.1.body.ver.toNat) = List.range' 1 chain.length
  linked : chain.IsChain fun c c' => c'.1.body.prev = some c.2
  same : ∀ c ∈ chain, c.1.identity = identity
  enveloped : ∀ c ∈ chain.tail, ∃ mine dek, c.1.body.env = [mine] ∧
    mine.openDek owner.sealing c.1.body.fid.bytes = .ok dek

section Verify

-- A version and the one after it.
structure Linked (P : Primitives) (c c' : Header × HeaderHash) : Prop where
  ver : c'.1.body.ver = c.1.body.ver + 1
  prev : c'.1.body.prev = some c.2
  fid : c'.1.body.fid = c.1.body.fid
  salt : c'.1.body.salt = c.1.body.salt
  hash : c'.1.headerHash P = .ok c'.2

theorem verifyLinks_of_isChain {c : Header × HeaderHash} {rest : List (Header × HeaderHash)}
    (h : (c :: rest).IsChain (Linked P)) : verifyLinks P c.1 c.2 rest = .ok () := by
  induction rest generalizing c with
  | nil => rfl
  | cons c' rest ih =>
      obtain ⟨hlink, hrest⟩ := List.isChain_cons_cons.mp h
      simp [verifyLinks, hlink.ver, hlink.prev, hlink.fid, hlink.salt, hlink.hash, ih hrest]

theorem verifyVersionChain_of_isChain {c : Header × HeaderHash} {rest : List (Header × HeaderHash)}
    (hver : c.1.body.ver = 1) (hprev : c.1.body.prev = none)
    (h : (c :: rest).IsChain (Linked P)) : verifyVersionChain P (c :: rest) = .ok () := by
  simp [verifyVersionChain, hver, hprev, verifyLinks_of_isChain h]

end Verify

section Step

variable {owner : OwnerKeys P} {path plaintextPath : Path} {dek : Dek} {v : Version}
  {c : Header × HeaderHash} {name : String} {policy : Policy} {rng : SealRandom} {env : SealEnv}
  {fs fs' : Fs} {h : Header} {container plaintext : Bytes}

-- The version at the path, as the seal that wrote it made it.
structure Current (P : Primitives) (owner : OwnerKeys P) (dek : Dek) (name : String) (v : Version)
    (c : Header × HeaderHash) : Prop where
  made : ∃ signer opts rng headerBytes frames,
    SealedAs P v.plaintext owner.sealing.x25519Pk signer opts rng c.1 v.container headerBytes frames ∧
      opts.WithinLimits ∧ opts.fileName = name ∧ rng.dek = dek ∧ c.2 = P.sha256 headerBytes
  short : v.plaintext.length < 2 ^ 64

theorem Current.readAs (cur : Current P owner dek name v c) (hP : P.Lawful) :
    ReadAs P owner name v c := by
  obtain ⟨signer, opts, rng, headerBytes, frames, s, hopts, rfl, -, hhash⟩ := cur.made
  obtain ⟨h, hash⟩ := c
  obtain rfl : hash = P.sha256 headerBytes := hhash
  exact ⟨s.inspect_eq hP hopts, fun offer sink hs =>
    s.openContainer_owner hP hopts cur.short hs (Reader.rest_ofData _ offer)⟩

-- Either way of resealing comes to a seal for the owner, over what was carried from the header.
theorem Current.resealToPath_eq (cur : Current P owner dek name v c) (hP : P.Lawful)
    (hfile : fs.readFile path = some v.container) :
    resealToPath P plaintextPath path owner policy rng env fs =
      sealSignedToPath P plaintextPath path owner.sealing.x25519Pk owner.signing
        (recipientOptions c.1 c.2 policy name) rng env fs := by
  obtain ⟨signer, opts, rng', headerBytes, frames, s, hopts, rfl, rfl, hhash⟩ := cur.made
  obtain ⟨mine, -, -, -, hfind, hopen⟩ := s.owner_envelope hP
  simp only [resealToPath, sealToPath, hfile, s.inspect_eq hP hopts, hfind, hopen,
    s.decryptName_eq hP, hhash]

theorem Current.resealAsRecipientToPath_eq (cur : Current P owner dek name v c) (hP : P.Lawful)
    {signer : SigningKeys} (hfile : fs.readFile path = some v.container) :
    resealAsRecipientToPath P plaintextPath path dek signer policy rng env fs =
      sealSignedToPath P plaintextPath path owner.sealing.x25519Pk signer
        (recipientOptions c.1 c.2 policy name) rng env fs := by
  obtain ⟨_, opts, rng', headerBytes, frames, s, hopts, rfl, rfl, hhash⟩ := cur.made
  simp only [resealAsRecipientToPath, hfile, s.inspect_eq hP hopts, s.header.opub,
    s.decryptName_eq hP, hhash]

-- What a version leaves to the next one.
structure Follows (P : Primitives) (owner : OwnerKeys P) (c c' : Header × HeaderHash) : Prop where
  linked : Linked P c c'
  ver : c'.1.body.ver.toNat = c.1.body.ver.toNat + 1
  identity : c'.1.identity = c.1.identity
  enveloped : ∃ mine dek, c'.1.body.env = [mine] ∧
    mine.openDek owner.sealing c'.1.body.fid.bytes = .ok dek

theorem Current.next (cur : Current P owner dek name v c) (hP : P.Lawful) {signer : SigningKeys}
    (hin : fs.readFile plaintextPath = some plaintext)
    (hseal : sealSignedToPath P plaintextPath path owner.sealing.x25519Pk signer
      (recipientOptions c.1 c.2 policy name) rng env fs = (.ok h, fs'))
    (hout : fs'.readFile path = some container) :
    ∃ hash, Current P owner rng.dek name ⟨container, plaintext⟩ (h, hash) ∧
      Follows P owner c (h, hash) := by
  obtain ⟨_, opts, rng', headerBytes, frames, s, hopts, rfl, rfl, hhash⟩ := cur.made
  obtain ⟨text, out, headerBytes', frames', hread, hshort, s', hthere⟩ := sealSignedToPath_eq_ok hseal
  obtain rfl : plaintext = text := Option.some.inj (hin.symm.trans hread)
  obtain rfl : container = out := Option.some.inj (hout.symm.trans hthere)
  have hbound : c.1.body.ver.toNat < 2 ^ 32 - 1 := by
    have hversion := s'.header.version
    simp only [recipientOptions, PrevVersion.of, nextVersion] at hversion
    split_ifs at hversion
    omega
  obtain ⟨hver, hverNat, hprev⟩ := s'.version_recipientOptions hbound
  have hid : (h.body.fid, h.body.salt) = (c.1.body.fid, c.1.body.salt) := s'.header.identity
  obtain ⟨hfid, hsalt⟩ := Prod.mk.inj hid
  obtain ⟨mine, rest, henv, hrest, -, hopen⟩ := s'.owner_envelope hP
  obtain rfl : rest = [] := List.eq_nil_of_length_eq_zero hrest
  have hchunk : h.body.chunk = c.1.body.chunk := by
    rw [s'.header.chunk]
    exact UInt32.ofNat_toNat
  refine ⟨P.sha256 headerBytes', ⟨⟨signer, _, rng, headerBytes', frames', s', ?_, rfl, rfl, rfl⟩, hshort⟩,
    ⟨hver, hprev, hfid, hsalt, Header.headerHash_eq s'.encoded⟩, hverNat, ?_, mine, _, henv, hopen⟩
  · exact s.recipientOptions_withinLimits hopts _ _
  · rw [Header.identity, Header.identity, hfid, hsalt, hchunk, s'.header.own, s'.header.opub,
      s.header.opub]
    rfl

end Step

section Induction

variable {owner : OwnerKeys P} {path : Path} {dek dek' : Dek} {versions : List Version}
  {chain back : List (Header × HeaderHash)} {identity : Identity} {name : String} {v' : Version}
  {c c' : Header × HeaderHash}

-- The versions so far, with the one at the path last.
structure Upto (P : Primitives) (owner : OwnerKeys P) (dek : Dek) (versions : List Version)
    (chain : List (Header × HeaderHash)) (identity : Identity) (name : String) : Prop where
  read : List.Forall₂ (ReadAs P owner name) versions chain
  start : ∀ c ∈ chain.head?, c.1.body.ver = 1 ∧ c.1.body.prev = none
  links : chain.IsChain (Linked P)
  numbered : chain.map (fun c => c.1.body.ver.toNat) = List.range' 1 chain.length
  same : ∀ c ∈ chain, c.1.identity = identity
  enveloped : ∀ c ∈ chain.tail, ∃ mine dek, c.1.body.env = [mine] ∧
    mine.openDek owner.sealing c.1.body.fid.bytes = .ok dek
  current : ∃ front v back c, versions = front ++ [v] ∧ chain = back ++ [c] ∧
    Current P owner dek name v c

theorem Upto.chained (h : Upto P owner dek versions chain identity name) :
    Chained P owner versions chain identity name := by
  refine ⟨h.read, ?_, h.numbered, h.links.imp fun c c' hlink => hlink.prev, h.same, h.enveloped⟩
  cases chain with
  | nil =>
      obtain ⟨front, v, back, c, -, hnil, -⟩ := h.current
      simp at hnil
  | cons c rest =>
      obtain ⟨hver, hprev⟩ := h.start c rfl
      exact verifyVersionChain_of_isChain hver hprev h.links

-- The number of a version is its place.
theorem Upto.ver_last (h : Upto P owner dek versions (back ++ [c]) identity name) :
    c.1.body.ver.toNat = back.length + 1 := by
  have hnumbered := h.numbered
  rw [List.map_append, List.length_append, List.length_singleton, List.range'_1_concat] at hnumbered
  have hlast := List.append_inj_right' hnumbered rfl
  rw [List.map_singleton, List.singleton_inj] at hlast
  omega

theorem Upto.concat (hP : P.Lawful) (h : Upto P owner dek versions (back ++ [c]) identity name)
    (hcur : Current P owner dek' name v' c') (hfollows : Follows P owner c c') :
    Upto P owner dek' (versions ++ [v']) (back ++ [c] ++ [c']) identity name where
  read := List.rel_append h.read (.cons (hcur.readAs hP) .nil)
  start c₀ hc₀ := by
    have hhead : (back ++ [c] ++ [c']).head? = (back ++ [c]).head? := by
      rw [List.head?_append_of_ne_nil _ (by simp)]
    rw [hhead] at hc₀
    exact h.start c₀ hc₀
  links := by
    rw [List.append_assoc, List.singleton_append, List.isChain_append_cons_cons]
    exact ⟨h.links, hfollows.linked, List.isChain_singleton _⟩
  numbered := by
    have hver := h.ver_last
    have hlength : (back ++ [c] ++ [c']).length = (back ++ [c]).length + 1 := by simp
    rw [List.map_append, h.numbered, hlength, List.range'_1_concat, List.map_singleton, hfollows.ver,
      hver]
    simp [Nat.add_comm]
  same c₀ hc₀ := by
    rcases List.mem_append.mp hc₀ with hold | hnew
    · exact h.same c₀ hold
    · rw [List.mem_singleton.mp hnew, hfollows.identity]
      exact h.same c (by simp)
  enveloped c₀ hc₀ := by
    rw [List.tail_append_of_ne_nil (by simp)] at hc₀
    rcases List.mem_append.mp hc₀ with hold | hnew
    · exact h.enveloped c₀ hold
    · rw [List.mem_singleton.mp hnew]
      exact hfollows.enveloped
  current := ⟨versions, v', back ++ [c], c', rfl, rfl, hcur⟩

-- One step of the history, whoever takes it.
theorem Upto.reseal (hP : P.Lawful) {last : Version} {plaintextPath : Path} {policy : Policy}
    {signer : SigningKeys} {rng : SealRandom} {env : SealEnv} {fs fs' : Fs} {h : Header}
    {container plaintext : Bytes}
    (hupto : Upto P owner dek (versions ++ [last]) chain identity name)
    (hin : fs.readFile plaintextPath = some plaintext)
    (hout : fs'.readFile path = some container)
    (hseal : ∀ c, Current P owner dek name last c →
      sealSignedToPath P plaintextPath path owner.sealing.x25519Pk signer
        (recipientOptions c.1 c.2 policy name) rng env fs = (.ok h, fs')) :
    ∃ chain', Upto P owner rng.dek (versions ++ [last] ++ [⟨container, plaintext⟩]) chain'
      identity name := by
  obtain ⟨front, v, back, c, hversions, rfl, hcur⟩ := hupto.current
  obtain ⟨-, rfl⟩ := List.append_singleton_inj.mp hversions
  obtain ⟨hash, hcur', hfollows⟩ := hcur.next hP hin (hseal c hcur) hout
  exact ⟨_, hupto.concat hP hcur' hfollows⟩

end Induction

-- Every history of a file is one chain of versions.
theorem History.upto {owner : OwnerKeys P} {path : Path} {dek : Dek} {versions : List Version}
    (hist : History P owner path dek versions) (hP : P.Lawful) :
    ∃ chain identity name, Upto P owner dek versions chain identity name := by
  induction hist with
  | @first _ opts rng _ _ _ h container plaintext hprev hin hseal hout hreadable =>
      obtain ⟨text, out, headerBytes, frames, hread, hshort, s, hthere⟩ := sealSignedToPath_eq_ok hseal
      obtain rfl : plaintext = text := Option.some.inj (hin.symm.trans hread)
      obtain rfl : container = out := Option.some.inj (hout.symm.trans hthere)
      have hopts := (s.readable_iff hP).mp hreadable
      have hcur : Current P owner rng.dek opts.fileName ⟨container, plaintext⟩
          (h, P.sha256 headerBytes) :=
        ⟨⟨_, opts, rng, headerBytes, frames, s, hopts, rfl, rfl, rfl⟩, hshort⟩
      have hversion : h.body.prev = none ∧ h.body.ver = 1 := by
        have hnext := s.header.version
        rw [hprev] at hnext
        obtain ⟨hnone, hone⟩ := Prod.mk.inj (Except.ok.inj hnext)
        exact ⟨hnone.symm, hone.symm⟩
      refine ⟨[(h, P.sha256 headerBytes)], h.identity, opts.fileName, .cons (hcur.readAs hP) .nil, ?_,
        List.isChain_singleton _, ?_, ?_, by simp, [], _, [], _, rfl, rfl, hcur⟩
      · rintro c ⟨⟩
        exact ⟨hversion.2, hversion.1⟩
      · rw [List.map_singleton, hversion.2]
        rfl
      · intro c hc
        rw [List.mem_singleton.mp hc]
  | byOwner _ hfile hin hseal hout ih =>
      obtain ⟨chain, identity, name, hupto⟩ := ih
      obtain ⟨chain', hupto'⟩ := hupto.reseal hP hin hout fun c hcur =>
        (hcur.resealToPath_eq hP hfile).symm.trans hseal
      exact ⟨chain', identity, name, hupto'⟩
  | byRecipient _ hfile hin hseal hout ih =>
      obtain ⟨chain, identity, name, hupto⟩ := ih
      obtain ⟨chain', hupto'⟩ := hupto.reseal hP hin hout fun c hcur =>
        (hcur.resealAsRecipientToPath_eq hP hfile).symm.trans hseal
      exact ⟨chain', identity, name, hupto'⟩

section Overflow

variable {fs : Fs} {plaintextPath dir : Path} {file : String} {rng : SealRandom} {env : SealEnv}

-- There is no version after the last one, and the attempt leaves the file alone.
theorem sealSignedToPath_overflow {ownerPk : FixedBytes 32} {signer : SigningKeys}
    {opts : SealOptions} {p : PrevVersion} (hprev : opts.prev = some p)
    (hmax : p.version.toNat = 2 ^ 32 - 1) :
    ∃ e fs', sealSignedToPath P plaintextPath (dir ++ [file]) ownerPk signer opts rng env fs =
      (.error e, fs') ∧ fs'.readFile (dir ++ [file]) = fs.readFile (dir ++ [file]) := by
  have hfail : ∀ input sink h out,
      sealSigned P input sink ownerPk signer opts rng ≠ .ok (h, out) := by
    intro input sink h out hseal
    obtain ⟨headerBytes, frames, s⟩ := sealSigned_eq_ok hseal
    have hversion := s.header.version
    rw [hprev, nextVersion, if_neg (by omega)] at hversion
    cases hversion
  unfold sealSignedToPath
  cases fs.readFile plaintextPath with
  | none => exact ⟨_, fs, rfl, rfl⟩
  | some plaintext =>
      dsimp only
      split
      · split
        · exact ⟨_, fs, rfl, rfl⟩
        · split
          · refine ⟨_, _, rfl, ?_⟩
            rw [Fs.readFile, Fs.lookup_insert_ne _ (withExtension_ne (by simp)).symm]
            rfl
          · rename_i hseal
            exact absurd hseal (hfail _ _ _ _)
      · exact ⟨_, fs, rfl, rfl⟩

variable {container : Bytes} {h : Header} {hash : HeaderHash} {policy : Policy}

theorem resealToPath_overflow (owner : OwnerKeys P)
    (hfile : fs.readFile (dir ++ [file]) = some container)
    (hread : inspect P (.ofData container env.offer) = .ok (h, hash))
    (hmax : h.body.ver.toNat = 2 ^ 32 - 1) :
    ∃ e fs', resealToPath P plaintextPath (dir ++ [file]) owner policy rng env fs = (.error e, fs') ∧
      fs'.readFile (dir ++ [file]) = some container := by
  simp only [resealToPath, hfile, hread]
  cases h.body.env.find? (fun e => e.kid = owner.sealing.keyId) with
  | none => exact ⟨_, fs, rfl, hfile⟩
  | some mine =>
      dsimp only
      cases mine.openDek owner.sealing h.body.fid.bytes with
      | error e => exact ⟨e, fs, rfl, hfile⟩
      | ok dek =>
          dsimp only
          cases decryptName P h dek with
          | error e => exact ⟨e, fs, rfl, hfile⟩
          | ok name =>
              obtain ⟨e, fs', hseal, hsame⟩ := @sealSignedToPath_overflow P fs plaintextPath dir file
                rng env owner.sealing.x25519Pk owner.signing (recipientOptions h hash policy name) _
                rfl hmax
              exact ⟨e, fs', hseal, hsame.trans hfile⟩

theorem resealAsRecipientToPath_overflow (prevDek : Dek) (signer : SigningKeys)
    (hfile : fs.readFile (dir ++ [file]) = some container)
    (hread : inspect P (.ofData container env.offer) = .ok (h, hash))
    (hmax : h.body.ver.toNat = 2 ^ 32 - 1) :
    ∃ e fs', resealAsRecipientToPath P plaintextPath (dir ++ [file]) prevDek signer policy rng env fs =
        (.error e, fs') ∧ fs'.readFile (dir ++ [file]) = some container := by
  simp only [resealAsRecipientToPath, hfile, hread]
  cases h.body.opub with
  | none => exact ⟨_, fs, rfl, hfile⟩
  | some opub =>
      dsimp only
      cases decryptName P h prevDek with
      | error e => exact ⟨e, fs, rfl, hfile⟩
      | ok name =>
          obtain ⟨e, fs', hseal, hsame⟩ := @sealSignedToPath_overflow P fs plaintextPath dir file
            rng env opub signer (recipientOptions h hash policy name) _ rfl hmax
          exact ⟨e, fs', hseal, hsame.trans hfile⟩

end Overflow

namespace Reference

-- The plaintext, beside the container if there is one.
def disk : Fs := Fs.empty.insert ["a.txt"] (.file [1, 2, 3, 4, 5] false)

def diskWith (container : Bytes) : Fs := disk.insert ["a.zbacs"] (.file container false)

theorem diskWith_reads (container : Bytes) :
    (diskWith container).readFile ["a.zbacs"] = some container ∧
      (diskWith container).readFile ["a.txt"] = some [1, 2, 3, 4, 5] ∧
      (diskWith container).lookup (withExtension ["a.zbacs"] "zbacs.tmp") ≠ some .dir := by
  have hne : withExtension ["a.zbacs"] "zbacs.tmp" ≠ ["a.zbacs"] := by decide
  refine ⟨by simp [Fs.readFile, diskWith], ?_, ?_⟩
  · rw [Fs.readFile, diskWith, Fs.lookup_insert_ne _ (by decide)]
    rfl
  · rw [diskWith, Fs.lookup_insert_ne _ hne]
    decide

-- A container that says it continues version 4.
def continuing : SealOptions :=
  { options with prev := some ⟨.replicate 32 0, 4, .replicate 32 0, .replicate 16 0⟩ }

theorem continuing_sealable : continuing.Sealable primitives :=
  { options_sealable with
    prev := by
      rintro p ⟨⟩
      decide }

end Reference

end Zbacs.Core
