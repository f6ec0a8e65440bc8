import Zbacs.Core.Container.RoundTrip

namespace Zbacs.Core

open Zbacs.Lib

-- A seal that succeeded, with the header bytes it wrote.
structure Sealing (P : Primitives) where
  input : Seekable
  sink : Sink
  ownerPk : FixedBytes 32
  signer : SigningKeys
  opts : SealOptions
  rng : SealRandom
  header : Header
  out : Bytes
  headerBytes : Bytes
  sealed : sealSigned P input sink ownerPk signer opts rng = .ok (header, out)
  encoded : header.encode P = .ok headerBytes

namespace Sealing

variable {P : Primitives} (s : Sealing P)

def plaintext : Bytes := s.input.data

def headerHash : HeaderHash := P.sha256 s.headerBytes

def total : Nat := chunkCount s.plaintext.length s.opts.chunkSize

def chunks : List Bytes := pieces s.opts.chunkSize s.total s.plaintext

-- The bytes after the header: chunk frames, then trailer.
def stream : Bytes := s.out.drop (containerHead s.headerBytes).length

def chunkQuery (index : Nat) (chunk : Bytes) : FixedBytes 24 × Bytes × Bytes :=
  (nonce s.rng.np index, chunkAad s.headerHash index (decide (index + 1 = s.total)), chunk)

-- Every (nonce, AAD, message) the seal encrypted under its DEK.
def queries : List (FixedBytes 24 × Bytes × Bytes) :=
  (nonce s.rng.np nameIndex, nameAad, paddedName s.opts.fileName) :: s.chunks.mapIdx s.chunkQuery

theorem sealedAs : ∃ frames,
    SealedAs P s.plaintext s.ownerPk s.signer s.opts s.rng s.header s.out s.headerBytes frames := by
  obtain ⟨headerBytes, frames, sa⟩ := sealSigned_eq_ok s.sealed
  have he := sa.encoded
  rw [s.encoded, Except.ok.injEq] at he
  subst he
  exact ⟨frames, sa⟩

end Sealing

-- What a set of seals encrypted under the DEK `dek`.
def sealLog {P : Primitives} (world : Set (Sealing P)) (dek : Dek) :
    Set (FixedBytes 24 × Bytes × Bytes × Bytes) :=
  {(n, aad, ct, msg) | ∃ s ∈ world, s.rng.dek = dek ∧ (n, aad, msg) ∈ s.queries ∧
    P.aead.encrypt dek n aad msg = some ct}

-- No two seals drew the same DEK together with the same nonce prefix.
def FreshDraws {P : Primitives} (world : Set (Sealing P)) : Prop :=
  ∀ s ∈ world, ∀ t ∈ world, s.rng.dek = t.rng.dek → s.rng.np = t.rng.np → s = t

theorem nonce_inj {np np' : NoncePrefix} {i j : Nat} (hi : i < 2 ^ 64) (hj : j < 2 ^ 64)
    (h : nonce np i = nonce np' j) : np = np' ∧ i = j := by
  have hbytes : np.bytes ++ leBytes 8 i = np'.bytes ++ leBytes 8 j := congrArg FixedBytes.bytes h
  obtain ⟨hnp, hindex⟩ := List.append_inj hbytes (by simp)
  exact ⟨FixedBytes.ext hnp, leBytes_inj (by simpa using hi) (by simpa using hj) hindex⟩

section Ideal

variable {P : Primitives} {world : Set (Sealing P)} {s : Sealing P}

theorem Sealing.total_lt (s : Sealing P) : s.total < 2 ^ 64 := by
  obtain ⟨_, sa⟩ := s.sealedAs
  exact sa.total_lt s.input.length_lt

theorem Sealing.length_chunks (s : Sealing P) : s.chunks.length = s.total := length_pieces _ _ _

-- Under the DEK of a seal, a chunk position decrypts only the frame that the
-- seal put there.
theorem decrypt_chunk (hfresh : FreshDraws world) (hs : s ∈ world)
    (hideal : P.aead.Ideal s.rng.dek (sealLog world s.rng.dek)) {index : Nat}
    (hindex : index < s.total) {aad frame msg : Bytes}
    (hdec : P.aead.decrypt s.rng.dek (nonce s.rng.np index) aad frame = some msg) :
    s.chunks[index]? = some msg ∧
      P.aead.encrypt s.rng.dek (nonce s.rng.np index)
        (chunkAad s.headerHash index (decide (index + 1 = s.total))) msg = some frame := by
  have htotal := s.total_lt
  obtain ⟨t, ht, hdek, hquery, henc⟩ := (hideal _ _ _ _).mp hdec
  rcases List.mem_cons.mp hquery with hname | hchunk
  · have hn := (Prod.mk.inj hname).1
    have := (nonce_inj (by omega) (by decide) hn).2
    simp only [nameIndex] at this
    omega
  · obtain ⟨j, hj, heq⟩ := List.mem_mapIdx.mp hchunk
    obtain ⟨hn, hrest⟩ := Prod.mk.inj heq
    obtain ⟨haad, hmsg⟩ := Prod.mk.inj hrest
    have hjt : j < t.total := t.length_chunks ▸ hj
    have htt := t.total_lt
    obtain ⟨hnp, rfl⟩ := nonce_inj (by omega) (by omega) hn
    obtain rfl := hfresh t ht s hs hdek hnp
    exact ⟨by rw [List.getElem?_eq_getElem hj, hmsg], haad ▸ henc⟩

theorem FramesFrom.eq {dek : Dek} {np : NoncePrefix} {headerHash : HeaderHash} {total index : Nat}
    {chunks : List Bytes} {a b : Bytes} (ha : FramesFrom P dek np headerHash total index chunks a)
    (hb : FramesFrom P dek np headerHash total index chunks b) : a = b := by
  induction chunks generalizing index a b with
  | nil => exact ha.trans hb.symm
  | cons c rest ih =>
      obtain ⟨fa, ta, hea, hta, rfl⟩ := ha
      obtain ⟨fb, tb, heb, htb, rfl⟩ := hb
      rw [hea] at heb
      cases heb
      rw [ih hta htb]

-- The frames of a seal open again under the ideal AEAD.
theorem opens_of_ideal (htag : ∀ {k n aad msg ct}, P.aead.encrypt k n aad msg = some ct →
      ct.length = msg.length + tagLen) (hs : s ∈ world)
    (hideal : P.aead.Ideal s.rng.dek (sealLog world s.rng.dek)) {index : Nat} {rest : List Bytes}
    {out : Bytes} (hrest : s.chunks.drop index = rest)
    (h : FramesFrom P s.rng.dek s.rng.np s.headerHash s.total index rest out) :
    OpensFrom P s.rng.dek s.rng.np s.headerHash s.total index rest out := by
  induction rest generalizing index out with
  | nil => exact h
  | cons c rest ih =>
      obtain ⟨frame, tail, henc, htail, rfl⟩ := h
      have hget : s.chunks[index]? = some c := by
        rw [← List.head?_drop, hrest, List.head?_cons]
      have hdrop : s.chunks.drop (index + 1) = rest := by
        rw [← List.tail_drop, hrest, List.tail_cons]
      obtain ⟨hlt, hc⟩ := List.getElem?_eq_some_iff.mp hget
      have hquery : s.chunkQuery index c ∈ s.queries :=
        List.mem_cons_of_mem _ (List.mem_mapIdx.mpr ⟨index, hlt, by rw [hc]⟩)
      exact ⟨frame, tail, htag henc, (hideal _ _ _ _).mpr ⟨s, hs, rfl, hquery, henc⟩,
        ih hdrop htail, rfl⟩

-- The open loop on an arbitrary reader: it hands out whole chunks of the
-- plaintext only, and gets through only on the frames of the seal.
theorem openLoop_ideal (hfresh : FreshDraws world) (hs : s ∈ world)
    (hideal : P.aead.Ideal s.rng.dek (sealLog world s.rng.dek)) {sink : Sink} (hsink : sink.Total)
    (left index : Nat) (hleft : index + left = s.total) (remaining : Nat) (r : Reader)
    (hashed written : Bytes) :
    ∃ k ≤ left, ∃ res,
      openLoop P sink s.rng.dek s.rng.np s.headerHash s.opts.chunkSize s.total left index remaining r
        hashed written = (res, written ++ ((s.chunks.drop index).take k).flatten) ∧
      ∀ r' hashed', res = .ok (r', hashed') → ∃ frames,
        FramesFrom P s.rng.dek s.rng.np s.headerHash s.total index (s.chunks.drop index) frames ∧
        r.rest = frames ++ r'.rest ∧ hashed' = hashed ++ frames := by
  induction left generalizing index remaining r hashed written with
  | zero =>
      refine ⟨0, Nat.le_refl _, .ok (r, hashed), by simp [openLoop], ?_⟩
      rintro r' hashed' ⟨⟩
      have hnil : s.chunks.drop index = [] := List.drop_eq_nil_of_le (by rw [s.length_chunks]; omega)
      exact ⟨[], by rw [hnil]; rfl, by simp, by simp⟩
  | succ left ih =>
      rw [openLoop]
      cases hread : r.readExact (min remaining s.opts.chunkSize + tagLen) with
      | none => exact ⟨0, Nat.zero_le _, .error .truncated, by simp, by rintro _ _ ⟨⟩⟩
      | some got =>
          obtain ⟨frame, next⟩ := got
          simp only
          split
          · exact ⟨0, Nat.zero_le _, .error (.chunkAuth index), by simp, by rintro _ _ ⟨⟩⟩
          · rename_i msg hdec
            obtain ⟨hget, henc⟩ := decrypt_chunk hfresh hs hideal (by omega) hdec
            obtain ⟨hlt, hmsg⟩ := List.getElem?_eq_some_iff.mp hget
            have hdrop : s.chunks.drop index = msg :: s.chunks.drop (index + 1) := by
              rw [List.drop_eq_getElem_cons hlt, hmsg]
            obtain ⟨k, hk, res, hgo, hres⟩ := ih (index + 1) (by omega)
              (remaining - (min remaining s.opts.chunkSize + tagLen - tagLen)) next
              (hashed ++ frame) (written ++ msg)
            refine ⟨k + 1, by omega, res, ?_, ?_⟩
            · rw [if_pos (hsink.1 _), hgo, hdrop, List.take_succ_cons, List.flatten_cons,
                List.append_assoc]
            · intro r' hashed' hok
              obtain ⟨frames, hframes, hrest, hhashed⟩ := hres r' hashed' hok
              obtain ⟨hfront, _⟩ := r.readExact_eq_some hread
              refine ⟨frame ++ frames, ?_, ?_, ?_⟩
              · rw [hdrop]
                exact ⟨frame, frames, henc, hframes, rfl⟩
              · rw [hfront, hrest, List.append_assoc]
              · rw [hhashed, List.append_assoc]

-- The trailer check passes only on the trailer of these frames, at the very end
-- of the input.
theorem openTrailer_eq_ok {sink : Sink} {headerHash : HeaderHash} {total : Nat}
    (htotal : total < 2 ^ 64) {r : Reader} {frames : Bytes}
    (h : openTrailer P sink headerHash total r frames = .ok ()) :
    r.rest = trailer P headerHash total frames := by
  unfold openTrailer at h
  split at h
  · cases h
  · rename_i tr r' hread
    obtain ⟨hrest, hlen, _⟩ := r.readExact_eq_some hread
    split_ifs at h with hend hcheck
    obtain ⟨hhash, hcount, htree⟩ : tr.take 32 = headerHash.bytes ∧
        leNat ((tr.drop 32).take 8) = total ∧ tr.drop 40 = (P.blake3 frames).bytes := by
      simpa only [not_or, not_not] using hcheck
    have hnil : r'.rest = [] := (r'.read_eq_nil 0).mp (not_not.mp hend)
    have hmid : (tr.drop 32).take 8 = leBytes 8 total :=
      (leBytes_eq_iff (by simp [hlen]) (by simpa using htotal)).mp hcount
    have htail : (tr.drop 32).drop 8 = tr.drop 40 := by rw [List.drop_drop]
    rw [hrest, hnil, List.append_nil, trailer, ← hhash, ← hmid, ← htree, ← htail, List.append_assoc,
      List.take_append_drop, List.take_append_drop]

end Ideal

section Main

variable {P : Primitives} {world : Set (Sealing P)} {s : Sealing P}

theorem Sealing.stream_eq {frames : Bytes} (sa : SealedAs P s.plaintext s.ownerPk s.signer s.opts
    s.rng s.header s.out s.headerBytes frames) :
    s.stream = streamBytes P s.headerBytes s.total frames := by
  rw [Sealing.stream, sa.out_eq, List.drop_left]
  rfl

-- The two phases of an open of the seal's own header, on any reader.
theorem openWithDek_cases (hs : s ∈ world)
    (hideal : P.aead.Ideal s.rng.dek (sealLog world s.rng.dek)) {sink : Sink} (r : Reader) :
    ∃ res written, openLoop P sink s.rng.dek s.rng.np s.headerHash s.opts.chunkSize s.total s.total 0
        s.plaintext.length r [] [] = (res, written) ∧
      (openWithDek P s.header s.headerHash r sink s.rng.dek).written = written ∧
      ∀ opened, (openWithDek P s.header s.headerHash r sink s.rng.dek).result = .ok opened →
        ∃ r' hashed, res = .ok (r', hashed) ∧
          openTrailer P sink s.headerHash s.total r' hashed = .ok () := by
  obtain ⟨frames, sa⟩ := s.sealedAs
  obtain ⟨hlen, hname⟩ := sa.name_eq
  have hfile : decryptName P s.header s.rng.dek = .ok s.opts.fileName := by
    apply decryptName_eq _ hlen
    rw [sa.header.np]
    exact (hideal _ _ _ _).mpr ⟨s, hs, rfl, List.mem_cons_self, hname⟩
  have hplen : s.header.body.plen.toNat = s.plaintext.length := sa.plen_toNat s.input.length_lt
  rcases hloop : openLoop P sink s.rng.dek s.rng.np s.headerHash s.opts.chunkSize s.total s.total 0
    s.plaintext.length r [] [] with ⟨res, written⟩
  refine ⟨res, written, rfl, ?_⟩
  have hfold : chunkCount s.plaintext.length s.opts.chunkSize = s.total := rfl
  simp only [openWithDek, hfile, sa.chunk_toNat, hplen, sa.header.np, hfold, hloop]
  cases res with
  | error e => exact ⟨rfl, by rintro _ ⟨⟩⟩
  | ok got =>
      obtain ⟨r', hashed⟩ := got
      simp only
      cases htrailer : openTrailer P sink s.headerHash s.total r' hashed with
      | error e => exact ⟨rfl, by rintro _ ⟨⟩⟩
      | ok u => exact ⟨rfl, fun _ _ => ⟨r', hashed, rfl, htrailer⟩⟩

-- Under an ideal AEAD, with the header and DEK of a seal: an open succeeds on
-- the stream that seal wrote and on no other, and whatever it hands out is whole
-- chunks from the start of the plaintext.
theorem openWithDek_ok_iff_stream
    (htag : ∀ {k n aad msg ct}, P.aead.encrypt k n aad msg = some ct →
      ct.length = msg.length + tagLen)
    (hfresh : FreshDraws world) (hs : s ∈ world)
    (hideal : P.aead.Ideal s.rng.dek (sealLog world s.rng.dek)) {sink : Sink} (hsink : sink.Total)
    (X : Bytes) (offer : Nat → Nat) :
    ((∃ opened, (openWithDek P s.header s.headerHash (.ofData X offer) sink s.rng.dek).result =
        .ok opened) ↔ X = s.stream) ∧
    ∃ k ≤ s.total, (openWithDek P s.header s.headerHash (.ofData X offer) sink s.rng.dek).written =
      s.plaintext.take (k * s.opts.chunkSize) := by
  obtain ⟨frames, sa⟩ := s.sealedAs
  have hstream := Sealing.stream_eq sa
  obtain ⟨res, written, hloop, hwritten, hok⟩ := openWithDek_cases hs hideal (.ofData X offer)
  obtain ⟨k, hk, res', hideal', hframes⟩ := openLoop_ideal hfresh hs hideal hsink s.total 0
    (Nat.zero_add _) s.plaintext.length (.ofData X offer) [] []
  rw [hloop] at hideal'
  obtain ⟨rfl, hpath⟩ := Prod.mk.inj hideal'
  refine ⟨⟨?_, ?_⟩, k, hk, ?_⟩
  · rintro ⟨opened, hopened⟩
    obtain ⟨r', hashed, rfl, htrailer⟩ := hok opened hopened
    obtain ⟨frames', hf, hrest, hhashed⟩ := hframes r' hashed rfl
    rw [List.drop_zero] at hf
    obtain rfl := hf.eq sa.framesOf
    rw [List.nil_append] at hhashed
    rw [Reader.rest_ofData, openTrailer_eq_ok s.total_lt htrailer, hhashed] at hrest
    rw [hrest, hstream]
    rfl
  · rintro rfl
    have hname := (hideal _ _ _ _).mpr ⟨s, hs, rfl, List.mem_cons_self, sa.name_eq.2⟩
    have hopens := opens_of_ideal htag hs hideal (List.drop_zero) sa.framesOf
    have hopen := sa.openWithDek_eq hname hopens s.input.length_lt hsink
      ((Reader.rest_ofData s.stream offer).trans hstream)
    exact ⟨_, congrArg OpenRun.result hopen⟩
  · rw [hwritten, hpath, List.nil_append, List.drop_zero, Sealing.chunks, take_pieces hk,
      flatten_pieces]

end Main

section Witness

-- The same libraries with another decryption. Sealing does not notice.
def Primitives.withDecrypt (P : Primitives)
    (dec : FixedBytes 32 → FixedBytes 24 → Bytes → Bytes → Option Bytes) : Primitives :=
  { P with aead := ⟨P.aead.encrypt, dec⟩ }

variable (P : Primitives) (dec : FixedBytes 32 → FixedBytes 24 → Bytes → Bytes → Option Bytes)

theorem sealLoop_withDecrypt (sink : Sink) (dek : Dek) (np : NoncePrefix) (headerHash : HeaderHash)
    (chunk total fuel index remaining : Nat) (r : Reader) (written hashed : Bytes) :
    sealLoop (P.withDecrypt dec) sink dek np headerHash chunk total fuel index remaining r written
      hashed = sealLoop P sink dek np headerHash chunk total fuel index remaining r written hashed := by
  induction fuel generalizing index remaining r written hashed with
  | zero => rfl
  | succ fuel ih =>
      simp only [sealLoop, ih]
      rfl

theorem sealEnvelopes_withDecrypt (dek : Dek) (fid : FileId) (seeds : Nat → Bytes) (index : Nat)
    (pks : List Bytes) : sealEnvelopes (P.withDecrypt dec) dek fid seeds index pks =
      sealEnvelopes P dek fid seeds index pks := by
  induction pks generalizing index with
  | nil => rfl
  | cons pk pks ih =>
      simp only [sealEnvelopes, ih]
      rfl

theorem sealSigned_withDecrypt (input : Seekable) (sink : Sink) (ownerPk : FixedBytes 32)
    (signer : SigningKeys) (opts : SealOptions) (rng : SealRandom) :
    sealSigned (P.withDecrypt dec) input sink ownerPk signer opts rng =
      sealSigned P input sink ownerPk signer opts rng := by
  have hheader : ∀ plaintext plen,
      sealHeader (P.withDecrypt dec) plaintext plen ownerPk signer opts rng =
        sealHeader P plaintext plen ownerPk signer opts rng := by
    intro plaintext plen
    simp only [sealHeader, sealEnvelopes_withDecrypt]
    rfl
  have hwrite : ∀ headerBytes chunk plen r,
      writeContainer (P.withDecrypt dec) sink headerBytes chunk plen r rng =
        writeContainer P sink headerBytes chunk plen r rng := by
    intro headerBytes chunk plen r
    simp only [writeContainer, sealLoop_withDecrypt]
    rfl
  simp only [sealSigned, hheader, hwrite]
  rfl

-- Decryption that knows what was encrypted and accepts nothing else.
def Reference.lookup (queries : List (FixedBytes 24 × Bytes × Bytes)) (k : FixedBytes 32)
    (n : FixedBytes 24) (aad ct : Bytes) : Option Bytes :=
  (queries.find? fun q => q.1 = n ∧ q.2.1 = aad ∧ aead.encrypt k n aad q.2.2 = some ct).map (·.2.2)

theorem Reference.lookup_eq_some {queries : List (FixedBytes 24 × Bytes × Bytes)}
    {k : FixedBytes 32} {n : FixedBytes 24} {aad ct msg : Bytes} :
    lookup queries k n aad ct = some msg ↔
      (n, aad, msg) ∈ queries ∧ aead.encrypt k n aad msg = some ct := by
  unfold lookup
  constructor
  · intro h
    obtain ⟨⟨n', aad', msg'⟩, hfind, rfl⟩ := Option.map_eq_some_iff.mp h
    have hmem := List.mem_of_find?_eq_some hfind
    obtain ⟨rfl, rfl, henc⟩ : n' = n ∧ aad' = aad ∧ aead.encrypt k n aad msg' = some ct := by
      simpa using List.find?_some hfind
    exact ⟨hmem, henc⟩
  · rintro ⟨hmem, henc⟩
    cases hfind : queries.find? fun q =>
        q.1 = n ∧ q.2.1 = aad ∧ aead.encrypt k n aad q.2.2 = some ct with
    | none =>
        have := List.find?_eq_none.mp hfind _ hmem
        simp [henc] at this
    | some q =>
        obtain ⟨_, _, hq⟩ : q.1 = n ∧ q.2.1 = aad ∧ aead.encrypt k n aad q.2.2 = some ct := by
          simpa using List.find?_some hfind
        obtain ⟨_, heq⟩ := aead_encrypt_eq_some.mp henc
        obtain ⟨_, heq'⟩ := aead_encrypt_eq_some.mp hq
        have := (List.append_inj' (heq ▸ heq') (by simp)).1
        simp [this]

theorem openWithDek_ok_iff_stream_five_bytes : ∃ (P : Primitives) (s : Sealing P),
    s.plaintext = [1, 2, 3, 4, 5] ∧ s.opts.chunkSize = 2 ∧ ∀ X offer,
    ((∃ opened, (openWithDek P s.header s.headerHash (.ofData X offer) .memory s.rng.dek).result =
        .ok opened) ↔ X = s.stream) ∧
    ∃ k ≤ s.total, (openWithDek P s.header s.headerHash (.ofData X offer) .memory
      s.rng.dek).written = s.plaintext.take (k * s.opts.chunkSize) := by
  obtain ⟨h, out, hseal⟩ := sealSigned_ok Reference.primitives_lawful Reference.options_sealable.accepted
    Reference.input Sink.memory_total Reference.owner.sealing.validKey Reference.owner.signing
    Reference.draws
  obtain ⟨headerBytes, frames, sa⟩ := sealSigned_eq_ok hseal
  let s₀ : Sealing Reference.primitives :=
    ⟨Reference.input, .memory, _, _, _, _, h, out, headerBytes, hseal, sa.encoded⟩
  let P := Reference.primitives.withDecrypt (Reference.lookup s₀.queries)
  let s : Sealing P := ⟨Reference.input, .memory, _, _, _, _, h, out, headerBytes,
    (sealSigned_withDecrypt _ _ _ _ _ _ _ _).trans hseal, sa.encoded⟩
  have htag : ∀ {k n aad msg ct}, P.aead.encrypt k n aad msg = some ct →
      ct.length = msg.length + tagLen := Reference.aead_correct.length_ct
  have hfresh : FreshDraws ({s} : Set (Sealing P)) := fun _ ha _ hb _ _ => ha.trans hb.symm
  have hideal : P.aead.Ideal s.rng.dek (sealLog {s} s.rng.dek) := by
    intro n aad ct msg
    have hlookup := @Reference.lookup_eq_some s₀.queries s.rng.dek n aad ct msg
    constructor
    · intro hdec
      obtain ⟨hmem, henc⟩ := hlookup.mp hdec
      exact ⟨s, rfl, rfl, hmem, henc⟩
    · rintro ⟨t, rfl, _, hmem, henc⟩
      exact hlookup.mpr ⟨hmem, henc⟩
  exact ⟨P, s, rfl, rfl, openWithDek_ok_iff_stream htag hfresh rfl hideal Sink.memory_total⟩

end Witness

end Zbacs.Core
