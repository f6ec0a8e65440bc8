import Zbacs.Core.Container.Sealing

namespace Zbacs.Core

open Zbacs.Lib

variable {P : Primitives}

section Loop

-- Frames that open, from `index` on, to the given chunks.
def OpensFrom (P : Primitives) (dek : Dek) (np : NoncePrefix) (headerHash : HeaderHash)
    (total : Nat) : Nat → List Bytes → Bytes → Prop
  | _, [], out => out = []
  | index, chunk :: rest, out =>
      ∃ frame tail, frame.length = chunk.length + tagLen ∧
        P.aead.decrypt dek (nonce np index)
          (chunkAad headerHash index (decide (index + 1 = total))) frame = some chunk ∧
        OpensFrom P dek np headerHash total (index + 1) rest tail ∧ out = frame ++ tail

variable {sink : Sink} {dek : Dek} {np : NoncePrefix} {headerHash : HeaderHash} {chunk total : Nat}

theorem FramesFrom.opens (hP : P.Lawful) {index : Nat} {chunks : List Bytes} {out : Bytes}
    (h : FramesFrom P dek np headerHash total index chunks out) :
    OpensFrom P dek np headerHash total index chunks out := by
  induction chunks generalizing index out with
  | nil => exact h
  | cons c rest ih =>
      obtain ⟨frame, tail, henc, htail, rfl⟩ := h
      exact ⟨frame, tail, hP.aead.length_ct henc, hP.aead.decrypt_encrypt henc, ih htail, rfl⟩

-- The open loop reads frame by frame. It cuts where the pieces end: the `i`-th
-- frame is as long as the `i`-th piece plus a tag.
theorem openLoop_frames (hs : sink.Total) (left : Nat) (index : Nat) (text : Bytes)
    (r : Reader) (hashed written frames back : Bytes)
    (hframes : OpensFrom P dek np headerHash total index (pieces chunk left text) frames)
    (hrest : r.rest = frames ++ back) :
    ∃ r', openLoop P sink dek np headerHash chunk total left index text.length r hashed written =
        (.ok (r', hashed ++ frames), written ++ (pieces chunk left text).flatten) ∧
      r'.rest = back := by
  induction left generalizing index text r hashed written frames with
  | zero =>
      obtain rfl : frames = [] := hframes
      exact ⟨r, by simp [openLoop, pieces], by simpa using hrest⟩
  | succ left ih =>
      obtain ⟨frame, tail, hlen, hdec, htail, rfl⟩ := hframes
      rw [List.length_take, Nat.min_comm] at hlen
      rw [List.append_assoc] at hrest
      obtain ⟨next, hread, _, hnext⟩ := r.readExact_append _ frame (tail ++ back) hrest hlen
      obtain ⟨r', hgo, hback⟩ := ih (index + 1) (text.drop chunk) next (hashed ++ frame)
        (written ++ text.take chunk) tail htail hnext
      refine ⟨r', ?_, hback⟩
      have hremaining : text.length - (min text.length chunk + tagLen - tagLen) =
          (text.drop chunk).length := by
        rw [List.length_drop]
        omega
      simp only [openLoop, hread, hdec, hs.1, if_true, hremaining, hgo, pieces, List.flatten_cons,
        List.append_assoc]

end Loop

theorem openTrailer_trailer {sink : Sink} (hs : sink.Total) {headerHash : HeaderHash} {total : Nat}
    (htotal : total < 2 ^ 64) {r : Reader} {frames : Bytes}
    (hrest : r.rest = trailer P headerHash total frames) :
    openTrailer P sink headerHash total r frames = .ok () := by
  have hlen : (trailer P headerHash total frames).length = 72 := by simp [trailer]
  obtain ⟨r', hread, _, hend⟩ := r.readExact_append 72 _ [] (by simpa using hrest) hlen
  have hnil : (r'.read 1).1 = [] := (r'.read_eq_nil 0).mpr hend
  have hcount : leNat (leBytes 8 total) = total := leNat_leBytes 8 total (by simpa using htotal)
  have hhash : (trailer P headerHash total frames).take 32 = headerHash.bytes := by
    rw [trailer, List.append_assoc, List.take_left' (by simp)]
  have hmid : ((trailer P headerHash total frames).drop 32).take 8 = leBytes 8 total := by
    rw [trailer, List.append_assoc, List.drop_left' (by simp), List.take_left' (by simp)]
  have htree : (trailer P headerHash total frames).drop 40 = (P.blake3 frames).bytes := by
    rw [trailer, List.drop_left' (by simp)]
  simp [openTrailer, hread, hnil, hhash, hmid, hcount, htree, hs.2]

-- Of a header that was written, the reader checks the fields.
theorem readHeader_containerHead_eq (hP : P.Lawful) {h : Header} {headerBytes back : Bytes}
    {r : Reader} (he : h.encode P = .ok headerBytes) (hv : h.verify P = .ok ())
    (hrest : r.rest = containerHead headerBytes ++ back) :
    ∃ r', readHeader P r = (validateHeader h).map (fun _ => (h, P.sha256 headerBytes, r')) ∧
      r'.rest = back := by
  obtain ⟨_, hmax⟩ := Header.encode_eq_ok.mp he
  have hsplit : r.rest = (magic ++ [versionMajor, versionMinor]) ++
      (leBytes 4 headerBytes.length ++ (headerBytes ++ back)) := by
    simp [hrest, containerHead]
  obtain ⟨r₁, hread₁, _, hrest₁⟩ := r.readExact_append 8 _ _ hsplit rfl
  obtain ⟨r₂, hread₂, _, hrest₂⟩ := r₁.readExact_append 4 _ _ hrest₁ (by simp)
  obtain ⟨r₃, hread₃, _, hrest₃⟩ := r₂.readExact_append headerBytes.length _ _ hrest₂ rfl
  have hlen : leNat (leBytes 4 headerBytes.length) = headerBytes.length :=
    leNat_leBytes 4 _ (by simp only [maxHeaderLen] at hmax; omega)
  have hmagic : (magic ++ [versionMajor, versionMinor]).take 6 = magic := rfl
  have hmajor : (magic ++ [versionMajor, versionMinor]).getD 6 0 = versionMajor := rfl
  refine ⟨r₃, ?_, hrest₃⟩
  simp only [readHeader, hread₁, hmagic, hmajor, hread₂, hlen, hread₃, ne_eq, not_true_eq_false,
    if_false, if_neg (Nat.not_lt.mpr hmax), Header.decodeVerified_encode hP he hv, ok_bind]
  cases validateHeader h <;> rfl

-- The header in front of a container is read back as it was written.
theorem readHeader_containerHead (hP : P.Lawful) {h : Header} {headerBytes back : Bytes} {r : Reader}
    (he : h.encode P = .ok headerBytes) (hv : h.verify P = .ok ()) (hvalid : validateHeader h = .ok ())
    (hrest : r.rest = containerHead headerBytes ++ back) :
    ∃ r', readHeader P r = .ok (h, P.sha256 headerBytes, r') ∧ r'.rest = back := by
  obtain ⟨r', hread, hback⟩ := readHeader_containerHead_eq hP he hv hrest
  exact ⟨r', by rw [hread, hvalid]; rfl, hback⟩

-- Whatever header is accepted stands behind magic, version and its own length, and
-- its hash is that of the bytes there.
theorem readHeader_eq_ok {r r' : Reader} {h : Header} {hash : HeaderHash}
    (hread : readHeader P r = .ok (h, hash, r')) :
    ∃ version headerBytes, version.length = 2 ∧ headerBytes.length < 2 ^ 32 ∧
      r.rest = magic ++ version ++ leBytes 4 headerBytes.length ++ headerBytes ++ r'.rest ∧
      hash = P.sha256 headerBytes := by
  unfold readHeader at hread
  split at hread
  · cases hread
  · rename_i head r₁ hr₁
    split_ifs at hread with hmagic hmajor
    split at hread
    · cases hread
    · rename_i lenBytes r₂ hr₂
      simp only at hread
      split_ifs at hread with hmax
      split at hread
      · cases hread
      · rename_i headerBytes r₃ hr₃
        obtain ⟨⟨h', hash'⟩, hdecode, hread⟩ := bind_eq_ok.mp hread
        obtain ⟨_, _, hread⟩ := bind_eq_ok.mp hread
        simp only [pure_eq_ok, Except.ok.injEq, Prod.mk.injEq] at hread
        obtain ⟨rfl, rfl, rfl⟩ := hread
        obtain ⟨hrest₁, hlen₁, _⟩ := r.readExact_eq_some hr₁
        obtain ⟨hrest₂, hlen₂, _⟩ := r₁.readExact_eq_some hr₂
        obtain ⟨hrest₃, hlen₃, _⟩ := r₂.readExact_eq_some hr₃
        have hlt : leNat lenBytes < 2 ^ 32 := by
          have := leNat_lt lenBytes
          rwa [hlen₂] at this
        have hlenBytes : lenBytes = leBytes 4 headerBytes.length := by
          rw [hlen₃]
          exact (leBytes_eq_iff hlen₂ (by simpa using hlt)).mp rfl
        refine ⟨head.drop 6, headerBytes, by simp [hlen₁], by omega, ?_,
          (Header.decodeVerified_eq_ok hdecode).2.2⟩
        rw [hrest₁, hrest₂, hrest₃, ← hlenBytes, ← not_not.mp hmagic]
        simp only [List.append_assoc]
        rw [← List.append_assoc (head.take 6), List.take_append_drop]

-- Version 1 and no other is without a predecessor, unless a version 0 was continued.
theorem nextVersion_consistent_iff {prev : Option PrevVersion} {hash : Option HeaderHash}
    {ver : UInt32} (h : nextVersion prev = .ok (hash, ver)) :
    (ver ≠ 0 ∧ decide (ver = 1) = hash.isNone) ↔ ∀ p ∈ prev, 1 ≤ p.version.toNat := by
  cases prev with
  | none =>
      cases h
      decide
  | some p =>
      rw [nextVersion] at h
      split_ifs at h with hlt
      cases h
      have hadd : (p.version + 1).toNat = p.version.toNat + 1 := by
        rw [UInt32.toNat_add, UInt32.toNat_one, Nat.mod_eq_of_lt hlt]
      have hzero : p.version + 1 ≠ 0 := by
        intro h0
        rw [h0, UInt32.toNat_zero] at hadd
        omega
      have hone : p.version + 1 = 1 ↔ ¬1 ≤ p.version.toNat := by
        rw [← UInt32.toNat_inj, hadd, UInt32.toNat_one]
        omega
      simp [hzero, hone, Nat.one_le_iff_ne_zero]

-- Everything the reader asks of a header.
theorem validateHeader_eq_ok {h : Header} : validateHeader h = .ok () ↔
    h.body.cipher = cipherXChaCha20Poly1305Chunked ∧
      (h.body.chunk ≠ 0 ∧ h.body.chunk.toNat ≤ maxChunk) ∧
      (h.body.ver ≠ 0 ∧ decide (h.body.ver = 1) = h.body.prev.isNone) ∧
      (h.body.own ≠ [] ∧ h.body.own.length ≤ maxOwnerLen) ∧
      (h.body.name.length ≤ maxNameCtLen ∧ namePadBlock + tagLen ≤ h.body.name.length) ∧
      (h.body.env ≠ [] ∧ h.body.env.length ≤ maxEnvelopes) ∧
      h.body.env.any (fun e =>
        e.enc.length > maxEnvelopeFieldLen ∨ e.ct.length > maxEnvelopeFieldLen) = false := by
  simp only [validateHeader, ite_error_eq_ok, ne_eq, not_not, not_or, Nat.not_lt, and_true, gt_iff_lt,
    Bool.not_eq_true, and_assoc]

-- What `seal` leaves to its caller: the limits of the format that it does not check itself.
structure SealOptions.WithinLimits (opts : SealOptions) : Prop where
  ownerPos : 0 < opts.ownerAccount.length
  ownerMax : opts.ownerAccount.length ≤ maxOwnerLen
  recipientsMax : opts.extraRecipients.length ≤ maxEnvelopes - 1
  prev : ∀ p ∈ opts.prev, 1 ≤ p.version.toNat

section Validate

variable {plaintext : Bytes} {plen : Nat} {ownerPk : FixedBytes 32} {signer : SigningKeys}
  {opts : SealOptions} {rng : SealRandom} {h : Header}

theorem HeaderOf.chunk_valid (hh : HeaderOf P plaintext plen ownerPk signer opts rng h)
    (hpos : 0 < opts.chunkSize) (hmax : opts.chunkSize ≤ maxChunk) :
    h.body.chunk ≠ 0 ∧ h.body.chunk.toNat ≤ maxChunk := by
  have hsize : opts.chunkSize < 2 ^ 32 := by
    simp only [maxChunk] at hmax
    omega
  have hchunk : h.body.chunk.toNat = opts.chunkSize := by
    rw [hh.chunk, UInt32.toNat_ofNat', Nat.mod_eq_of_lt hsize]
  refine ⟨fun h0 => ?_, by omega⟩
  rw [h0, UInt32.toNat_zero] at hchunk
  omega

theorem HeaderOf.name_valid (hP : P.Lawful)
    (hh : HeaderOf P plaintext plen ownerPk signer opts rng h) :
    h.body.name.length ≤ maxNameCtLen ∧ namePadBlock + tagLen ≤ h.body.name.length := by
  obtain ⟨padded, hpad, hname⟩ := hh.name
  have hlen : (utf8 opts.fileName).length ≤ maxNameLen := by
    by_contra hc
    simp only [padName, if_pos (Nat.lt_of_not_le hc)] at hpad
    cases hpad
  rw [padName_eq _ hlen] at hpad
  cases hpad
  have hct := (hP.aead.length_ct hname).trans (by rw [length_paddedName _ hlen])
  obtain ⟨_, hmin, hmax⟩ := padded_bounds _ hlen
  omega

-- One envelope for the owner and one for each recipient, all of fixed sizes.
theorem HeaderOf.env_valid (hP : P.Lawful)
    (hh : HeaderOf P plaintext plen ownerPk signer opts rng h) :
    h.body.env.length = opts.extraRecipients.length + 1 ∧ h.body.env.any (fun e =>
      e.enc.length > maxEnvelopeFieldLen ∨ e.ct.length > maxEnvelopeFieldLen) = false := by
  have henv := sealEnvelopes_eq_ok hh.env
  refine ⟨by rw [← List.Forall₂.length_eq henv, List.length_cons], ?_⟩
  rw [List.any_eq_false]
  intro e hmem
  obtain ⟨pk, _, seed, hseal⟩ := henv.mem hmem
  obtain ⟨henc, hct, _⟩ := sealDek_cborBound hP hseal
  simp [henc, hct, maxEnvelopeFieldLen]

-- The reader takes a sealed header exactly within the limits `seal` leaves unchecked.
theorem validateHeader_iff_withinLimits (hP : P.Lawful)
    (hh : HeaderOf P plaintext plen ownerPk signer opts rng h) (hpos : 0 < opts.chunkSize)
    (hmax : opts.chunkSize ≤ maxChunk) : validateHeader h = .ok () ↔ opts.WithinLimits := by
  obtain ⟨hcount, hfields⟩ := hh.env_valid hP
  have henv : h.body.env ≠ [] := List.ne_nil_of_length_pos (by omega)
  have hown : opts.ownerAccount ≠ [] ↔ 0 < opts.ownerAccount.length := List.length_pos_iff.symm
  rw [validateHeader_eq_ok, nextVersion_consistent_iff hh.version, hh.own, hcount, hown]
  constructor
  · rintro ⟨-, -, hprev, ⟨hownPos, hownMax⟩, -, ⟨-, hrecipients⟩, -⟩
    exact ⟨hownPos, hownMax, by omega, hprev⟩
  · rintro ⟨hownPos, hownMax, hrecipients, hprev⟩
    refine ⟨hh.cipher, hh.chunk_valid hpos hmax, hprev, ⟨hownPos, hownMax⟩, hh.name_valid hP,
      ⟨henv, ?_⟩, hfields⟩
    simp only [maxEnvelopes] at hrecipients ⊢
    omega

theorem SealOptions.Sealable.withinLimits (hopts : opts.Sealable P) : opts.WithinLimits :=
  ⟨hopts.ownerPos, hopts.ownerMax, hopts.recipientsMax, fun p hp => (hopts.prev p hp).1⟩

end Validate

section Sinks

variable {sink : Sink}

-- A sink that took everything has it all.
theorem openLoop_memory {dek : Dek} {np : NoncePrefix} {headerHash : HeaderHash} {chunk total : Nat}
    (left : Nat) {index remaining : Nat} {r : Reader} {hashed written : Bytes} {got : Reader × Bytes}
    {out : Bytes} (h : openLoop P sink dek np headerHash chunk total left index remaining r hashed
      written = (.ok got, out)) :
    openLoop P .memory dek np headerHash chunk total left index remaining r hashed written =
      (.ok got, out) := by
  induction left generalizing index remaining r hashed written with
  | zero => exact h
  | succ left ih =>
      unfold openLoop at h ⊢
      cases hread : r.readExact (min remaining chunk + tagLen) with
      | none =>
          simp only [hread] at h
          cases h
      | some got =>
          simp only [hread] at h ⊢
          split at h
          · cases h
          · split at h
            · simp only [Sink.memory, if_true]
              exact ih h
            · cases h

theorem openTrailer_memory {headerHash : HeaderHash} {total : Nat} {r : Reader} {hashed : Bytes}
    (h : openTrailer P sink headerHash total r hashed = .ok ()) :
    openTrailer P .memory headerHash total r hashed = .ok () := by
  unfold openTrailer at h ⊢
  cases hread : r.readExact 72 with
  | none =>
      rw [hread] at h
      cases h
  | some got =>
      simp only [hread] at h ⊢
      split at h
      · cases h
      · split at h
        · cases h
        · rename_i hend htrailer
          simp only [hend, htrailer, if_false, Sink.memory, if_true]

theorem openWithDek_memory {h : Header} {headerHash : HeaderHash} {r : Reader} {dek : Dek}
    {opened : Opened} (hopen : (openWithDek P h headerHash r sink dek).result = .ok opened) :
    openWithDek P h headerHash r .memory dek =
      ⟨.ok opened, (openWithDek P h headerHash r sink dek).written⟩ := by
  unfold openWithDek at hopen ⊢
  cases hname : decryptName P h dek with
  | error e =>
      rw [hname] at hopen
      cases hopen
  | ok name =>
      simp only [hname] at hopen ⊢
      split at hopen
      · cases hopen
      · rename_i hloop
        simp only [openLoop_memory _ hloop]
        split at hopen
        · cases hopen
        · rename_i htrailer
          simp only [openTrailer_memory htrailer]
          cases hopen
          rfl

end Sinks

section Sealed

variable {plaintext out headerBytes frames : Bytes} {ownerPk : FixedBytes 32} {signer : SigningKeys}
  {opts : SealOptions} {rng : SealRandom} {h : Header}

namespace SealedAs

theorem chunk_toNat (s : SealedAs P plaintext ownerPk signer opts rng h out headerBytes frames) :
    h.body.chunk.toNat = opts.chunkSize := by
  have hmax := s.chunkMax
  simp only [maxChunk] at hmax
  rw [s.header.chunk, UInt32.toNat_ofNat', Nat.mod_eq_of_lt (by omega)]

theorem plen_toNat (s : SealedAs P plaintext ownerPk signer opts rng h out headerBytes frames)
    (hlen : plaintext.length < 2 ^ 64) : h.body.plen.toNat = plaintext.length := by
  rw [s.header.plen, UInt64.toNat_ofNat', Nat.mod_eq_of_lt hlen]

theorem total_lt (s : SealedAs P plaintext ownerPk signer opts rng h out headerBytes frames)
    (hlen : plaintext.length < 2 ^ 64) : chunkCount plaintext.length opts.chunkSize < 2 ^ 64 := by
  rw [chunkCount_eq_pieceCount]
  have := pieceCount_le plaintext.length opts.chunkSize (2 ^ 64 - 1) s.chunkPos (by decide) (by omega)
  omega

theorem name_eq (s : SealedAs P plaintext ownerPk signer opts rng h out headerBytes frames) :
    (utf8 opts.fileName).length ≤ maxNameLen ∧
      P.aead.encrypt rng.dek (nonce rng.np nameIndex) nameAad (paddedName opts.fileName) =
        some h.body.name := by
  obtain ⟨padded, hpad, hname⟩ := s.header.name
  have hlen : (utf8 opts.fileName).length ≤ maxNameLen := by
    by_contra hc
    simp only [padName, if_pos (Nat.lt_of_not_le hc)] at hpad
    cases hpad
  rw [padName_eq _ hlen] at hpad
  cases hpad
  exact ⟨hlen, hname⟩

-- With the DEK, the bytes after the header open to the plaintext, as long as
-- its name and frames do.
theorem openWithDek_eq (s : SealedAs P plaintext ownerPk signer opts rng h out headerBytes frames)
    (hname : P.aead.decrypt rng.dek (nonce rng.np nameIndex) nameAad h.body.name =
      some (paddedName opts.fileName))
    (hopens : OpensFrom P rng.dek rng.np (P.sha256 headerBytes)
      (chunkCount plaintext.length opts.chunkSize) 0
      (pieces opts.chunkSize (chunkCount plaintext.length opts.chunkSize) plaintext) frames)
    (hlen : plaintext.length < 2 ^ 64) {sink : Sink} (hs : sink.Total) {r : Reader}
    (hrest : r.rest = streamBytes P headerBytes (chunkCount plaintext.length opts.chunkSize)
      frames) :
    openWithDek P h (P.sha256 headerBytes) r sink rng.dek =
      ⟨.ok ⟨h, P.sha256 headerBytes, opts.fileName⟩, plaintext⟩ := by
  obtain ⟨r', hloop, hend⟩ := openLoop_frames hs _ 0 plaintext r [] [] frames _ hopens hrest
  rw [← s.header.np] at hname
  have hfile := decryptName_eq hname s.name_eq.1
  have htrailer := openTrailer_trailer hs (s.total_lt hlen) hend
  have hflat : (pieces opts.chunkSize (chunkCount plaintext.length opts.chunkSize)
      plaintext).flatten = plaintext := by
    rw [chunkCount_eq_pieceCount, flatten_pieces_pieceCount _ _ s.chunkPos]
  simp only [List.nil_append, hflat] at hloop
  simp only [openWithDek, hfile, s.chunk_toNat, s.plen_toNat hlen, s.header.np, hloop,
    htrailer]

-- Without a key, the header is there for everybody to see.
theorem readHeader_eq (s : SealedAs P plaintext ownerPk signer opts rng h out headerBytes frames)
    (hP : P.Lawful) (hopts : opts.WithinLimits) {r : Reader} (hrest : r.rest = out) :
    ∃ r', readHeader P r = .ok (h, P.sha256 headerBytes, r') ∧
      r'.rest = streamBytes P headerBytes (chunkCount plaintext.length opts.chunkSize) frames :=
  readHeader_containerHead hP s.encoded (Header.verify_sign hP s.header.signed)
    ((validateHeader_iff_withinLimits hP s.header s.chunkPos s.chunkMax).mpr hopts)
    (hrest.trans s.out_eq)

theorem inspect_eq (s : SealedAs P plaintext ownerPk signer opts rng h out headerBytes frames)
    (hP : P.Lawful) (hopts : opts.WithinLimits) (offer : Nat → Nat) :
    inspect P (.ofData out offer) = .ok (h, P.sha256 headerBytes) := by
  obtain ⟨r, hread, -⟩ := s.readHeader_eq hP hopts (Reader.rest_ofData out offer)
  simp [inspect, hread]

theorem eq_of_inspect (s : SealedAs P plaintext ownerPk signer opts rng h out headerBytes frames)
    (hP : P.Lawful) (hopts : opts.WithinLimits) {header : Header} {hash : HeaderHash}
    {offer : Nat → Nat} (hinspect : inspect P (.ofData out offer) = .ok (header, hash)) :
    header = h ∧ hash = P.sha256 headerBytes := by
  rw [s.inspect_eq hP hopts] at hinspect
  cases hinspect
  exact ⟨rfl, rfl⟩

-- The owner's envelope is the first one, so the owner finds it whatever the others are.
theorem owner_envelope {owner : DeviceKeys P}
    (s : SealedAs P plaintext owner.x25519Pk signer opts rng h out headerBytes frames)
    (hP : P.Lawful) : ∃ mine rest, h.body.env = mine :: rest ∧
      rest.length = opts.extraRecipients.length ∧
      h.body.env.find? (fun e => e.kid = owner.keyId) = some mine ∧
      mine.openDek owner h.body.fid.bytes = .ok rng.dek := by
  have henv := sealEnvelopes_eq_ok s.header.env
  generalize h.body.env = env at henv
  cases henv with
  | @cons _ mine _ rest hmine hrest =>
      obtain ⟨seed, hseal⟩ := hmine
      have hkid : mine.kid = owner.keyId := (Envelope.sealDek_eq_ok hseal).1
      exact ⟨mine, rest, rfl, (List.Forall₂.length_eq hrest).symm,
        List.find?_cons_of_pos (by simp [hkid]), Envelope.openDek_sealDek hP hseal⟩

theorem openContainer_owner {owner : DeviceKeys P}
    (s : SealedAs P plaintext owner.x25519Pk signer opts rng h out headerBytes frames)
    (hP : P.Lawful) (hopts : opts.WithinLimits) (hlen : plaintext.length < 2 ^ 64) {sink : Sink}
    (hs : sink.Total) {r : Reader} (hrest : r.rest = out) :
    openContainer P r sink owner =
      ⟨.ok ⟨h, P.sha256 headerBytes, opts.fileName⟩, plaintext⟩ := by
  obtain ⟨r', hread, hstream⟩ := s.readHeader_eq hP hopts hrest
  obtain ⟨mine, -, -, -, hfind, hopen⟩ := s.owner_envelope hP
  simp only [openContainer, hread, hfind, hopen]
  exact s.openWithDek_eq (hP.aead.decrypt_encrypt s.name_eq.2) (s.framesOf.opens hP) hlen hs hstream

-- A recipient opens the whole container; `keys` may be any key pair an envelope
-- was sealed to.
theorem openContainer_eq (s : SealedAs P plaintext ownerPk signer opts rng h out headerBytes frames) (hP : P.Lawful)
    (hopts : opts.WithinLimits) (hlen : plaintext.length < 2 ^ 64) {sink : Sink} (hs : sink.Total)
    {keys : DeviceKeys P} (hkeys : keys.x25519Pk.bytes ∈ ownerPk.bytes :: opts.extraRecipients)
    (hdistinct : ∀ pk ∈ ownerPk.bytes :: opts.extraRecipients,
      keyIdOf P pk = keys.keyId → pk = keys.x25519Pk.bytes) {r : Reader} (hrest : r.rest = out) :
    openContainer P r sink keys =
      ⟨.ok ⟨h, P.sha256 headerBytes, opts.fileName⟩, plaintext⟩ := by
  obtain ⟨r', hread, hstream⟩ := s.readHeader_eq hP hopts hrest
  obtain ⟨e, seed, hfind, hseal⟩ := (sealEnvelopes_eq_ok s.header.env).find? hkeys hdistinct
  have hopen := Envelope.openDek_sealDek hP hseal
  have hfound : h.body.env.find? (fun e => e.kid = keys.keyId) = some e := hfind
  simp only [openContainer, hread, hfound, hopen]
  exact s.openWithDek_eq (hP.aead.decrypt_encrypt s.name_eq.2) (s.framesOf.opens hP) hlen hs hstream

end SealedAs

end Sealed

end Zbacs.Core
