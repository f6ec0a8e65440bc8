import Zbacs.Core.Container.Name
import Mathlib.Data.List.Forall2

namespace Zbacs.Core

open Zbacs.Lib

variable {P : Primitives}

-- The frames of the chunks from `index` on, back to back. The chunk whose index
-- is the last of `total` is the only one with the last-chunk flag in its AAD.
def FramesFrom (P : Primitives) (dek : Dek) (np : NoncePrefix) (headerHash : HeaderHash)
    (total : Nat) : Nat → List Bytes → Bytes → Prop
  | _, [], out => out = []
  | index, chunk :: rest, out =>
      ∃ frame tail, P.aead.encrypt dek (nonce np index)
        (chunkAad headerHash index (decide (index + 1 = total))) chunk = some frame ∧
        FramesFrom P dek np headerHash total (index + 1) rest tail ∧ out = frame ++ tail

-- Magic, version and header, in front of the chunk frames.
def containerHead (headerBytes : Bytes) : Bytes :=
  magic ++ [versionMajor, versionMinor] ++ leBytes 4 headerBytes.length ++ headerBytes

def trailer (P : Primitives) (headerHash : HeaderHash) (total : Nat) (frames : Bytes) : Bytes :=
  headerHash.bytes ++ leBytes 8 total ++ (P.blake3 frames).bytes

-- Everything that follows the header.
def streamBytes (P : Primitives) (headerBytes : Bytes) (total : Nat) (frames : Bytes) : Bytes :=
  frames ++ trailer P (P.sha256 headerBytes) total frames

theorem chunkCount_eq_pieceCount (plen chunk : Nat) :
    chunkCount plen chunk = pieceCount plen chunk := rfl

theorem hashPass_eq (chunk : Nat) (hchunk : 0 < chunk) (fuel : Nat) (r : Reader) (hashed : Bytes)
    (plen : Nat) (hfuel : r.rest.length < fuel) :
    ∃ r', hashPass chunk fuel r hashed plen = (hashed ++ r.rest, plen + r.rest.length, r') ∧
      r'.data = r.data := by
  obtain ⟨chunk, rfl⟩ : ∃ c, chunk = c + 1 := ⟨chunk - 1, by omega⟩
  induction fuel generalizing r hashed plen with
  | zero => omega
  | succ fuel ih =>
      have happ := r.read_append (chunk + 1)
      have hdata := r.data_read (chunk + 1)
      have hnil := r.read_eq_nil chunk
      rcases hread : r.read (chunk + 1) with ⟨got, next⟩
      rw [hread] at happ hdata hnil
      cases got with
      | nil =>
          have hempty := hnil.mp rfl
          exact ⟨next, by simp [hashPass, hread, hempty], hdata⟩
      | cons b got =>
          have hlen : (b :: got).length + next.rest.length = r.rest.length := by
            rw [← happ, List.length_append]
          simp only [List.length_cons] at hlen
          obtain ⟨r', he, hd⟩ := ih next (hashed ++ b :: got) (plen + (b :: got).length) (by omega)
          refine ⟨r', ?_, hd.trans hdata⟩
          rw [hashPass, hread]
          simp only
          rw [he, ← happ, List.append_assoc, List.length_append, Nat.add_assoc]

theorem writeAll_eq_ok {sink : Sink} {written more out : Bytes}
    (h : writeAll sink written more = .ok out) : out = written ++ more := by
  unfold writeAll at h
  split_ifs at h
  cases h
  rfl

theorem writeAll_total {sink : Sink} (hs : sink.Total) (written more : Bytes) :
    writeAll sink written more = .ok (written ++ more) := by
  simp [writeAll, hs.1]

theorem encryptOrFail_eq_ok {dek : Dek} {n : FixedBytes 24} {aad msg ct : Bytes} :
    encryptOrFail P dek n aad msg = .ok ct ↔ P.aead.encrypt dek n aad msg = some ct := by
  unfold encryptOrFail
  cases P.aead.encrypt dek n aad msg <;> simp

-- Cutting off what a round reads is the same from the front of what remains.
theorem take_drop_round (xs : Bytes) (remaining chunk : Nat) :
    (xs.take remaining).take chunk = xs.take (min remaining chunk) ∧
    (xs.take remaining).drop chunk =
      (xs.drop (min remaining chunk)).take (remaining - min remaining chunk) := by
  constructor
  · rw [List.take_take, Nat.min_comm]
  · rcases Nat.le_total remaining chunk with h | h
    · rw [Nat.min_eq_left h, Nat.sub_self, List.take_zero, List.drop_eq_nil_of_le]
      exact (List.length_take_le _ _).trans h
    · rw [Nat.min_eq_right h, List.drop_take]

section Loop

variable {sink : Sink} {dek : Dek} {np : NoncePrefix} {headerHash : HeaderHash} {chunk total : Nat}

-- A round of the seal loop that succeeded: what it read, the frame it wrote,
-- and how it went on.
theorem sealLoop_succ {fuel index remaining : Nat} {r : Reader} {written hashed : Bytes}
    {res : Bytes × Bytes}
    (h : sealLoop P sink dek np headerHash chunk total (fuel + 1) index remaining r written hashed =
      .ok res) :
    ∃ r' frame, r.readExact (min remaining chunk) = some (r.rest.take (min remaining chunk), r') ∧
      r'.rest = r.rest.drop (min remaining chunk) ∧
      P.aead.encrypt dek (nonce np index)
        (chunkAad headerHash index (decide (index + 1 = total)))
        (r.rest.take (min remaining chunk)) = some frame ∧
      (if index + 1 = total then res = (written ++ frame, hashed ++ frame)
        else sealLoop P sink dek np headerHash chunk total fuel (index + 1)
          (remaining - min remaining chunk) r' (written ++ frame) (hashed ++ frame) = .ok res) := by
  rw [sealLoop] at h
  split at h
  · cases h
  · rename_i buf r' hread
    obtain ⟨hrest, hlen, _⟩ := r.readExact_eq_some hread
    have hbuf : r.rest.take (min remaining chunk) = buf := by
      rw [hrest, List.take_left' hlen]
    have hnext : r'.rest = r.rest.drop (min remaining chunk) := by
      rw [hrest, List.drop_left' hlen]
    obtain ⟨frame, hf, h⟩ := bind_eq_ok.mp h
    obtain ⟨written', hw, h⟩ := bind_eq_ok.mp h
    obtain rfl := writeAll_eq_ok hw
    refine ⟨r', frame, by rw [hbuf, hread], hnext, hbuf ▸ encryptOrFail_eq_ok.mp hf, ?_⟩
    by_cases hlast : index + 1 = total
    · simp only [hlast, decide_true, if_true, pure_eq_ok, Except.ok.injEq] at h ⊢
      exact h.symm
    · simpa only [hlast, decide_false, Bool.false_eq_true, if_false] using h

-- Every frame the seal loop appends is the encryption of its piece of the
-- input, in order. Induction on the rounds left.
theorem sealLoop_eq_ok (left : Nat) {fuel index remaining : Nat} {r : Reader}
    {written hashed : Bytes} {res : Bytes × Bytes} (hpos : 0 < left) (hleft : index + left = total)
    (hfuel : left ≤ fuel)
    (h : sealLoop P sink dek np headerHash chunk total fuel index remaining r written hashed =
      .ok res) :
    ∃ out, res = (written ++ out, hashed ++ out) ∧
      FramesFrom P dek np headerHash total index
        (pieces chunk left (r.rest.take remaining)) out := by
  induction left generalizing fuel index remaining r written hashed with
  | zero => omega
  | succ left ih =>
      obtain ⟨fuel, rfl⟩ : ∃ f, fuel = f + 1 := ⟨fuel - 1, by omega⟩
      obtain ⟨r', frame, _, hnext, henc, hgo⟩ := sealLoop_succ h
      obtain ⟨htake, hdrop⟩ := take_drop_round r.rest remaining chunk
      by_cases hlast : index + 1 = total
      · obtain rfl : left = 0 := by omega
        rw [if_pos hlast] at hgo
        refine ⟨frame, hgo, frame, [], ?_, rfl, by simp⟩
        rw [htake]
        exact henc
      · rw [if_neg hlast] at hgo
        obtain ⟨out, rfl, hframes⟩ := ih (by omega) (by omega) (by omega) hgo
        refine ⟨frame ++ out, by simp, frame, out, ?_, ?_, rfl⟩
        · rw [htake]
          exact henc
        · rw [hdrop, ← hnext]
          exact hframes

variable (dek np headerHash total) in
theorem sealLoop_ok (hP : P.Lawful) (hs : sink.Total) (hchunk : chunk ≤ maxChunk) (fuel : Nat)
    (index remaining : Nat) (r : Reader) (written hashed : Bytes)
    (hrem : remaining ≤ r.rest.length) :
    ∃ res, sealLoop P sink dek np headerHash chunk total fuel index remaining r written hashed =
      .ok res := by
  induction fuel generalizing index remaining r written hashed with
  | zero => exact ⟨_, rfl⟩
  | succ fuel ih =>
      have hwant : min remaining chunk ≤ r.rest.length := by omega
      obtain ⟨r', hread, _, hnext⟩ := r.readExact_some _ hwant
      have hlen : (r.rest.take (min remaining chunk)).length ≤ 2 ^ 32 := by
        have : maxChunk ≤ 2 ^ 32 := by decide
        simp only [List.length_take]
        omega
      obtain ⟨frame, hf⟩ := hP.aead.encrypts dek (nonce np index)
        (chunkAad headerHash index (decide (index + 1 = total))) _ hlen
      by_cases hlast : index + 1 = total
      · refine ⟨(written ++ frame, hashed ++ frame), ?_⟩
        simp only [hlast, decide_true] at hf
        simp [sealLoop, hread, hlast, encryptOrFail_eq_ok.mpr hf, writeAll_total hs]
      · obtain ⟨res, he⟩ := ih (index + 1) (remaining - min remaining chunk) r' (written ++ frame)
          (hashed ++ frame) (by rw [hnext, List.length_drop]; omega)
        refine ⟨res, ?_⟩
        simp only [hlast, decide_false] at hf
        simp [sealLoop, hread, hlast, encryptOrFail_eq_ok.mpr hf, writeAll_total hs, he]

end Loop

theorem writeContainer_eq_ok {sink : Sink} {headerBytes out : Bytes} {chunk plen : Nat} {r : Reader}
    {rng : SealRandom} (hchunk : 0 < chunk)
    (h : writeContainer P sink headerBytes chunk plen r rng = .ok out) :
    ∃ frames, out = containerHead headerBytes ++
        streamBytes P headerBytes (chunkCount plen chunk) frames ∧
      FramesFrom P rng.dek rng.np (P.sha256 headerBytes) (chunkCount plen chunk) 0
        (pieces chunk (chunkCount plen chunk) (r.rest.take plen)) frames := by
  unfold writeContainer at h
  obtain ⟨w₁, h₁, h⟩ := bind_eq_ok.mp h
  obtain ⟨w₂, h₂, h⟩ := bind_eq_ok.mp h
  obtain ⟨w₃, h₃, h⟩ := bind_eq_ok.mp h
  obtain ⟨w₄, h₄, h⟩ := bind_eq_ok.mp h
  obtain ⟨⟨w₅, hashed⟩, h₅, h⟩ := bind_eq_ok.mp h
  obtain ⟨w₆, h₆, h⟩ := bind_eq_ok.mp h
  obtain ⟨w₇, h₇, h⟩ := bind_eq_ok.mp h
  obtain ⟨w₈, h₈, h⟩ := bind_eq_ok.mp h
  have hout : w₈ = out := by
    split_ifs at h
    simpa using h
  obtain ⟨frames, hres, hframes⟩ := sealLoop_eq_ok (chunkCount plen chunk)
    (pieceCount_pos plen chunk hchunk) (by omega) (Nat.le_refl _) h₅
  obtain ⟨hw₅, hhashed⟩ := Prod.mk.inj hres
  rw [List.nil_append] at hhashed
  obtain rfl := writeAll_eq_ok h₁
  obtain rfl := writeAll_eq_ok h₂
  obtain rfl := writeAll_eq_ok h₃
  obtain rfl := writeAll_eq_ok h₄
  obtain rfl := writeAll_eq_ok h₆
  obtain rfl := writeAll_eq_ok h₇
  obtain rfl := writeAll_eq_ok h₈
  refine ⟨frames, ?_, hframes⟩
  simp [← hout, hw₅, hhashed, containerHead, streamBytes, trailer]

theorem writeContainer_ok (hP : P.Lawful) {sink : Sink} (hs : sink.Total) (headerBytes : Bytes)
    {chunk : Nat} (hchunk : chunk ≤ maxChunk) (r : Reader) (rng : SealRandom) :
    ∃ out, writeContainer P sink headerBytes chunk r.rest.length r rng = .ok out := by
  obtain ⟨⟨w, hashed⟩, hloop⟩ := sealLoop_ok rng.dek rng.np (P.sha256 headerBytes)
    (chunkCount r.rest.length chunk) hP hs hchunk (chunkCount r.rest.length chunk) 0 r.rest.length r
    (containerHead headerBytes) [] (Nat.le_refl _)
  refine ⟨w ++ trailer P (P.sha256 headerBytes) (chunkCount r.rest.length chunk) hashed, ?_⟩
  simp only [containerHead, List.append_assoc, List.cons_append, List.nil_append] at hloop
  simp [writeContainer, writeAll_total hs, hloop, hs.2, trailer]

-- Where each field of a sealed header comes from.
structure HeaderOf (P : Primitives) (plaintext : Bytes) (plen : Nat) (ownerPk : FixedBytes 32)
    (signer : SigningKeys) (opts : SealOptions) (rng : SealRandom) (h : Header) : Prop where
  signed : h.body.sign P signer = .ok h
  identity : (h.body.fid, h.body.salt) =
    fileIdentity P (P.sha256 plaintext) rng.salt opts.prev
  version : nextVersion opts.prev = .ok (h.body.prev, h.body.ver)
  own : h.body.own = opts.ownerAccount
  opub : h.body.opub = some ownerPk
  pol : h.body.pol = opts.policy
  cipher : h.body.cipher = cipherXChaCha20Poly1305Chunked
  chunk : h.body.chunk = UInt32.ofNat opts.chunkSize
  plen : h.body.plen = UInt64.ofNat plen
  np : h.body.np = rng.np
  name : ∃ padded, padName opts.fileName = .ok padded ∧
    P.aead.encrypt rng.dek (nonce rng.np nameIndex) nameAad padded = some h.body.name
  env : sealEnvelopes P rng.dek h.body.fid rng.seeds 0
    (ownerPk.bytes :: opts.extraRecipients) = .ok h.body.env

theorem sealHeader_eq_ok {plaintext : Bytes} {plen : Nat} {ownerPk : FixedBytes 32}
    {signer : SigningKeys} {opts : SealOptions} {rng : SealRandom} {h : Header}
    (hs : sealHeader P plaintext plen ownerPk signer opts rng = .ok h) :
    HeaderOf P plaintext plen ownerPk signer opts rng h := by
  unfold sealHeader at hs
  rcases hid : fileIdentity P (P.sha256 plaintext) rng.salt opts.prev with ⟨fid, salt⟩
  simp only [hid] at hs
  obtain ⟨padded, hpad, hs⟩ := bind_eq_ok.mp hs
  obtain ⟨nameCt, hname, hs⟩ := bind_eq_ok.mp hs
  obtain ⟨env, henv, hs⟩ := bind_eq_ok.mp hs
  obtain ⟨⟨prev, ver⟩, hver, hs⟩ := bind_eq_ok.mp hs
  have hbody := (HeaderBody.sign_eq_ok hs).1
  exact
    { signed := by rw [hbody]; exact hs
      identity := by rw [hbody, hid]
      version := by rw [hbody]; exact hver
      own := by rw [hbody]
      opub := by rw [hbody]
      pol := by rw [hbody]
      cipher := by rw [hbody]
      chunk := by rw [hbody]
      plen := by rw [hbody]
      np := by rw [hbody]
      name := ⟨padded, hpad, by rw [hbody]; exact encryptOrFail_eq_ok.mp hname⟩
      env := by rw [hbody]; exact henv }

-- A successful seal: its header and the bytes it wrote.
structure SealedAs (P : Primitives) (plaintext : Bytes) (ownerPk : FixedBytes 32)
    (signer : SigningKeys) (opts : SealOptions) (rng : SealRandom) (h : Header)
    (out headerBytes frames : Bytes) : Prop where
  chunkPos : 0 < opts.chunkSize
  chunkMax : opts.chunkSize ≤ maxChunk
  header : HeaderOf P plaintext plaintext.length ownerPk signer opts rng h
  encoded : h.encode P = .ok headerBytes
  framesOf : FramesFrom P rng.dek rng.np (P.sha256 headerBytes)
    (chunkCount plaintext.length opts.chunkSize) 0
    (pieces opts.chunkSize (chunkCount plaintext.length opts.chunkSize) plaintext) frames
  out_eq : out = containerHead headerBytes ++
    streamBytes P headerBytes (chunkCount plaintext.length opts.chunkSize) frames

-- The input is read twice, from the start both times.
theorem sealSigned_eq_ok {input : Seekable} {sink : Sink}
    {ownerPk : FixedBytes 32} {signer : SigningKeys} {opts : SealOptions} {rng : SealRandom}
    {h : Header} {out : Bytes}
    (hs : sealSigned P input sink ownerPk signer opts rng = .ok (h, out)) :
    ∃ headerBytes frames,
      SealedAs P input.data ownerPk signer opts rng h out headerBytes frames := by
  unfold sealSigned at hs
  split_ifs at hs with hc
  have hpos : 0 < opts.chunkSize := by omega
  obtain ⟨r, hpass, hdata⟩ := hashPass_eq opts.chunkSize hpos (input.data.length + 1)
    input.toReader [] 0 (by rw [input.rest_eq]; exact Nat.lt_succ_self _)
  rw [hpass] at hs
  simp only [List.nil_append, Nat.zero_add, input.rest_eq] at hs
  obtain ⟨header, hh, hs⟩ := bind_eq_ok.mp hs
  obtain ⟨headerBytes, he, hs⟩ := bind_eq_ok.mp hs
  obtain ⟨w, hw, hs⟩ := bind_eq_ok.mp hs
  simp only [pure_eq_ok, Except.ok.injEq, Prod.mk.injEq] at hs
  obtain ⟨rfl, rfl⟩ := hs
  obtain ⟨frames, hout, hframes⟩ := writeContainer_eq_ok hpos hw
  rw [Reader.rest_seekStart, hdata, List.take_length] at hframes
  exact ⟨headerBytes, frames, hpos, by omega, sealHeader_eq_ok hh, he, hframes, hout⟩

section Success

-- One envelope per recipient, in order, each sealed to its key with AAD = fid.
def EnvelopesFor (P : Primitives) (dek : Dek) (fid : FileId) : List Bytes → List Envelope → Prop :=
  List.Forall₂ fun pk e => ∃ seed, Envelope.sealDek P pk dek fid.bytes seed = .ok e

theorem sealEnvelopes_ok (hP : P.Lawful) (dek : Dek) (fid : FileId) (seeds : Nat → Bytes)
    (index : Nat) (pks : List Bytes) (hpks : ∀ pk ∈ pks, P.hpke.ValidKey pk) :
    ∃ es, sealEnvelopes P dek fid seeds index pks = .ok es := by
  induction pks generalizing index with
  | nil => exact ⟨[], rfl⟩
  | cons pk pks ih =>
      obtain ⟨e, he, _⟩ := Envelope.sealDek_ok hP pk dek fid.bytes (seeds index)
        (hpks pk List.mem_cons_self)
      obtain ⟨es, hes⟩ := ih (index + 1) fun q hq => hpks q (List.mem_cons_of_mem _ hq)
      exact ⟨e :: es, by simp [sealEnvelopes, he, hes]⟩

theorem sealEnvelopes_eq_ok {dek : Dek} {fid : FileId} {seeds : Nat → Bytes} {index : Nat}
    {pks : List Bytes} {es : List Envelope}
    (h : sealEnvelopes P dek fid seeds index pks = .ok es) :
    EnvelopesFor P dek fid pks es := by
  induction pks generalizing index es with
  | nil =>
      cases h
      exact .nil
  | cons pk pks ih =>
      rw [sealEnvelopes] at h
      obtain ⟨e, he, h⟩ := bind_eq_ok.mp h
      obtain ⟨rest, hr, h⟩ := bind_eq_ok.mp h
      cases h
      exact .cons ⟨seeds index, he⟩ (ih hr)

theorem EnvelopesFor.mem {dek : Dek} {fid : FileId} {pks : List Bytes} {es : List Envelope}
    (h : EnvelopesFor P dek fid pks es) {e : Envelope} (he : e ∈ es) :
    ∃ pk ∈ pks, ∃ seed, Envelope.sealDek P pk dek fid.bytes seed = .ok e := by
  induction h with
  | nil => cases he
  | cons hseal _ ih =>
      rcases List.mem_cons.mp he with rfl | he
      · exact ⟨_, List.mem_cons_self, hseal⟩
      · obtain ⟨pk, hpk, hs⟩ := ih he
        exact ⟨pk, List.mem_cons_of_mem _ hpk, hs⟩

-- The first envelope with a recipient's key id is that recipient's own.
theorem EnvelopesFor.find? {dek : Dek} {fid : FileId} {pks : List Bytes} {es : List Envelope}
    (h : EnvelopesFor P dek fid pks es) {pk : Bytes} (hpk : pk ∈ pks)
    (hdistinct : ∀ q ∈ pks, keyIdOf P q = keyIdOf P pk → q = pk) :
    ∃ e seed, es.find? (fun e => e.kid = keyIdOf P pk) = some e ∧
      Envelope.sealDek P pk dek fid.bytes seed = .ok e := by
  induction h with
  | nil => cases hpk
  | @cons q e _ _ hseal _ ih =>
      obtain ⟨seed, hseal⟩ := hseal
      have hkid := (Envelope.sealDek_eq_ok hseal).1
      by_cases heq : keyIdOf P q = keyIdOf P pk
      · obtain rfl := hdistinct q List.mem_cons_self heq
        exact ⟨e, seed, by simp [hkid], hseal⟩
      · have htail : pk ∈ _ := (List.mem_cons.mp hpk).resolve_left fun h => heq (h ▸ rfl)
        obtain ⟨e', seed', hfind, hs⟩ := ih htail fun q hq => hdistinct q (List.mem_cons_of_mem _ hq)
        exact ⟨e', seed', by simpa [hkid, heq] using hfind, hs⟩

theorem sealDek_cborBound (hP : P.Lawful) {pk : Bytes} {dek : Dek} {aad seed : Bytes}
    {e : Envelope} (h : Envelope.sealDek P pk dek aad seed = .ok e) :
    e.enc.length = 32 ∧ e.ct.length = 48 ∧ e.cborBound = 194 := by
  obtain ⟨_, halg, hs⟩ := Envelope.sealDek_eq_ok h
  obtain ⟨henc, hct⟩ := hP.hpke.lengths hs
  have hsize : algHpkeX25519ChaCha.toUTF8.size = 18 := by decide
  simp only [FixedBytes.length_bytes, tagLen] at hct
  refine ⟨henc, hct, ?_⟩
  rw [Envelope.cborBound, halg, hsize, henc, hct]

-- A wrapped DEK encodes.
theorem sealDek_encodes (hP : P.Lawful) {pk : Bytes} {dek : Dek} {aad seed : Bytes} {e : Envelope}
    (h : Envelope.sealDek P pk dek aad seed = .ok e) :
    ∃ bytes, P.envelopeCodec.encode e = .ok bytes ∧ bytes.length ≤ 194 := by
  have hbound := (sealDek_cborBound hP h).2.2
  obtain ⟨bytes, hencode, hlen⟩ := hP.envelopeBounded e (by
    rw [hbound]
    decide)
  exact ⟨bytes, hencode, hbound ▸ hlen⟩

theorem sum_cborBound_sealEnvelopes (hP : P.Lawful) {dek : Dek} {fid : FileId} {pks : List Bytes}
    {es : List Envelope} (h : EnvelopesFor P dek fid pks es) :
    (es.map Envelope.cborBound).sum = 194 * pks.length := by
  induction h with
  | nil => rfl
  | cons he _ ih =>
      obtain ⟨seed, he⟩ := he
      rw [List.map_cons, List.sum_cons, (sealDek_cborBound hP he).2.2, ih, List.length_cons]
      omega

-- What `seal` asks of its options, and of the version it continues.
structure SealOptions.Sealable (P : Primitives) (opts : SealOptions) : Prop where
  chunkPos : 0 < opts.chunkSize
  chunkMax : opts.chunkSize ≤ maxChunk
  name : (utf8 opts.fileName).length ≤ maxNameLen
  ownerPos : 0 < opts.ownerAccount.length
  ownerMax : opts.ownerAccount.length ≤ maxOwnerLen
  recipients : ∀ pk ∈ opts.extraRecipients, P.hpke.ValidKey pk
  recipientsMax : opts.extraRecipients.length ≤ maxEnvelopes - 1
  prev : ∀ p ∈ opts.prev, 1 ≤ p.version.toNat ∧ p.version.toNat < 2 ^ 32 - 1

-- With these `seal` goes through, whatever the reader will say.
structure SealOptions.Accepted (P : Primitives) (opts : SealOptions) : Prop where
  chunkPos : 0 < opts.chunkSize
  chunkMax : opts.chunkSize ≤ maxChunk
  name : (utf8 opts.fileName).length ≤ maxNameLen
  recipients : ∀ pk ∈ opts.extraRecipients, P.hpke.ValidKey pk
  small : opts.ownerAccount.length + 194 * opts.extraRecipients.length ≤ 1000000
  prev : ∀ p ∈ opts.prev, p.version.toNat < 2 ^ 32 - 1

theorem SealOptions.Sealable.accepted {opts : SealOptions} (hopts : opts.Sealable P) :
    opts.Accepted P where
  chunkPos := hopts.chunkPos
  chunkMax := hopts.chunkMax
  name := hopts.name
  recipients := hopts.recipients
  small := by
    have hown := hopts.ownerMax
    have hcount := hopts.recipientsMax
    simp only [maxOwnerLen, maxEnvelopes] at hown hcount
    omega
  prev p hp := (hopts.prev p hp).2

theorem nextVersion_ok {prev : Option PrevVersion}
    (h : ∀ p ∈ prev, p.version.toNat < 2 ^ 32 - 1) :
    ∃ hash ver, nextVersion prev = .ok (hash, ver) := by
  cases prev with
  | none => exact ⟨_, _, rfl⟩
  | some p =>
      have hp := h p rfl
      exact ⟨_, _, by rw [nextVersion, if_pos (by omega)]⟩

variable {opts : SealOptions}

theorem sealHeader_ok (hP : P.Lawful) (hopts : opts.Accepted P) (plaintext : Bytes) (plen : Nat)
    {ownerPk : FixedBytes 32} (hpk : P.hpke.ValidKey ownerPk.bytes) (signer : SigningKeys)
    (rng : SealRandom) :
    ∃ h, sealHeader P plaintext plen ownerPk signer opts rng = .ok h ∧
      h.cborBound ≤ maxHeaderLen := by
  rcases hid : fileIdentity P (P.sha256 plaintext) rng.salt opts.prev with ⟨fid, salt⟩
  have hname := padName_eq opts.fileName hopts.name
  have hpadded := length_paddedName opts.fileName hopts.name
  have hbound := (padded_bounds _ hopts.name).2.2
  obtain ⟨nameCt, hct⟩ := hP.aead.encrypts rng.dek (nonce rng.np nameIndex) nameAad
    (paddedName opts.fileName) (by simp only [maxNameCtLen, tagLen] at hbound; omega)
  have hctLen := hP.aead.length_ct hct
  obtain ⟨es, hes⟩ := sealEnvelopes_ok hP rng.dek fid rng.seeds 0
    (ownerPk.bytes :: opts.extraRecipients) (by
      intro pk hmem
      rcases List.mem_cons.mp hmem with rfl | hmem
      · exact hpk
      · exact hopts.recipients pk hmem)
  have hsum := sum_cborBound_sealEnvelopes hP (sealEnvelopes_eq_ok hes)
  obtain ⟨prev, ver, hver⟩ := nextVersion_ok hopts.prev
  have hsmall := hopts.small
  have hbody : ∀ b : HeaderBody, b.own = opts.ownerAccount → b.name = nameCt → b.env = es →
      b.cborBound ≤ 1040000 := by
    intro b ho hn he
    rw [HeaderBody.cborBound, ho, hn, he, hsum, hctLen, hpadded]
    simp only [List.length_cons, maxNameCtLen, tagLen] at *
    omega
  let body : HeaderBody :=
    { fid, salt, ver, prev
      own := opts.ownerAccount
      opub := some ownerPk
      pol := opts.policy
      cipher := cipherXChaCha20Poly1305Chunked
      chunk := UInt32.ofNat opts.chunkSize
      plen := UInt64.ofNat plen
      np := rng.np
      name := nameCt
      env := es }
  have hb := hbody body rfl rfl rfl
  obtain ⟨h, hh⟩ := body.sign_ok hP signer (hb.trans (by decide))
  refine ⟨h, ?_, ?_⟩
  · simp [sealHeader, hid, hname, encryptOrFail_eq_ok.mpr hct, hes, hver]
    exact hh
  · obtain ⟨he, hk, hsig⟩ := HeaderBody.sign_eq_ok hh
    rw [Header.cborBound, he, hk, hsig, FixedBytes.length_bytes, maxHeaderLen]
    omega

theorem sealSigned_ok (hP : P.Lawful) (hopts : opts.Accepted P) (input : Seekable) {sink : Sink}
    (hs : sink.Total) {ownerPk : FixedBytes 32}
    (hpk : P.hpke.ValidKey ownerPk.bytes) (signer : SigningKeys) (rng : SealRandom) :
    ∃ h out, sealSigned P input sink ownerPk signer opts rng = .ok (h, out) := by
  obtain ⟨r, hpass, hdata⟩ := hashPass_eq opts.chunkSize hopts.chunkPos (input.data.length + 1)
    input.toReader [] 0 (by rw [input.rest_eq]; exact Nat.lt_succ_self _)
  simp only [input.rest_eq, List.nil_append, Nat.zero_add] at hpass
  obtain ⟨h, hh, hsize⟩ := sealHeader_ok hP hopts input.data input.data.length hpk signer rng
  obtain ⟨headerBytes, he, _⟩ := Header.encode_ok hP h hsize
  obtain ⟨out, hw⟩ := writeContainer_ok hP hs headerBytes hopts.chunkMax r.seekStart rng
  rw [Reader.rest_seekStart, hdata] at hw
  have hchunk : ¬(opts.chunkSize = 0 ∨ opts.chunkSize > maxChunk) := by
    have := hopts.chunkPos
    have := hopts.chunkMax
    omega
  refine ⟨h, out, ?_⟩
  simp only [sealSigned, if_neg hchunk, hpass]
  simp [hh, he, hw]

end Success

end Zbacs.Core
