import Mathlib.Data.List.Nodup
import Zbacs.Core.Container.Rounds

namespace Zbacs.Core

open Zbacs.Lib

-- Every chunk once and in turn, all of them full but for the last, which is marked and which alone
-- may be empty, if there is nothing to seal; and no nonce twice, that of the name included.
structure Regular (np : NoncePrefix) (plen chunk : Nat) (rounds : List Round) : Prop where
  count : rounds.length = chunkCount plen chunk
  indices : (rounds.map fun r => r.index.toNat) = List.range (chunkCount plen chunk)
  marked : rounds.map Round.isLast = List.replicate (chunkCount plen chunk - 1) false ++ [true]
  full : ∀ r ∈ rounds, r.isLast = false → r.length.toNat = chunk
  last : ∀ r ∈ rounds, r.isLast = true → r.length.toNat ≤ chunk ∧ (r.length.toNat = 0 ↔ plen = 0)
  sum : (rounds.map fun r => r.length.toNat).sum = plen
  nonces : (nonce np nameIndex :: rounds.map Round.nonce).Nodup

section Regular

variable {np : NoncePrefix} {plen chunk total i : Nat}

theorem chunkCount_pos (hchunk : 0 < chunk) : 0 < chunkCount plen chunk :=
  pieceCount_pos plen chunk hchunk

theorem le_chunkCount_mul (hchunk : 0 < chunk) : plen ≤ chunkCount plen chunk * chunk :=
  le_pieceCount_mul plen chunk hchunk

-- The last chunk is not empty unless there is nothing to seal.
theorem chunkCount_pred_mul_lt (hplen : plen ≠ 0) : (chunkCount plen chunk - 1) * chunk < plen := by
  have hmul := Nat.div_mul_le_self (plen + chunk - 1) chunk
  rw [chunkCount, if_neg hplen, divCeil, Nat.sub_mul]
  omega

theorem sum_min (count : Nat) :
    ((List.range count).map fun i => min (plen - i * chunk) chunk).sum = min plen (count * chunk) := by
  induction count with
  | zero => simp
  | succ count ih =>
      rw [List.range_succ, List.map_append, List.sum_append, ih, Nat.succ_mul]
      simp only [List.map_cons, List.map_nil, List.sum_cons, List.sum_nil]
      omega

theorem roundAt_length (hchunk : chunk < 2 ^ 64) :
    (roundAt np plen chunk total i).length.toNat = min (plen - i * chunk) chunk := by
  rw [roundAt, UInt64.toNat_ofNat_of_lt' ((Nat.min_le_right ..).trans_lt hchunk)]

theorem indices_roundAt (htotal : total < 2 ^ 64) :
    ((List.range total).map (roundAt np plen chunk total)).map (fun r => r.index.toNat) =
      List.range total := by
  rw [List.map_map]
  refine (List.map_congr_left fun i hi => ?_).trans (List.map_id _)
  exact UInt64.toNat_ofNat_of_lt' ((List.mem_range.mp hi).trans htotal)

theorem marked_roundAt (htotal : 0 < total) :
    ((List.range total).map (roundAt np plen chunk total)).map Round.isLast =
      List.replicate (total - 1) false ++ [true] := by
  obtain ⟨front, rfl⟩ : ∃ n, total = n + 1 := ⟨_, (Nat.sub_add_cancel htotal).symm⟩
  rw [Nat.add_sub_cancel, List.map_map, List.range_succ, List.map_append]
  congr 1
  · refine List.eq_replicate_iff.mpr ⟨by simp, fun b hb => ?_⟩
    obtain ⟨i, hi, rfl⟩ := List.mem_map.mp hb
    exact decide_eq_false (by have := List.mem_range.mp hi; omega)
  · simp [roundAt]

-- A chunk before the last one is full.
theorem full_roundAt (hchunk : chunk < 2 ^ 64) (hi : i + 1 ≤ chunkCount plen chunk - 1) :
    (roundAt np plen chunk total i).length.toNat = chunk := by
  have hplen : plen ≠ 0 := by
    rintro rfl
    rw [chunkCount, if_pos rfl] at hi
    omega
  have hmul := Nat.mul_le_mul_right chunk hi
  have hlong := @chunkCount_pred_mul_lt plen chunk hplen
  rw [Nat.succ_mul] at hmul
  rw [roundAt_length hchunk]
  omega

theorem last_roundAt (hpos : 0 < chunk) (hchunk : chunk < 2 ^ 64) :
    (roundAt np plen chunk total (chunkCount plen chunk - 1)).length.toNat ≤ chunk ∧
      ((roundAt np plen chunk total (chunkCount plen chunk - 1)).length.toNat = 0 ↔ plen = 0) := by
  rw [roundAt_length hchunk]
  refine ⟨Nat.min_le_right .., fun hempty => ?_, fun hplen => by rw [hplen]; simp⟩
  by_contra hplen
  have hlong := @chunkCount_pred_mul_lt plen chunk hplen
  omega

theorem sum_roundAt (hpos : 0 < chunk) (hchunk : chunk < 2 ^ 64) :
    (((List.range (chunkCount plen chunk)).map (roundAt np plen chunk total)).map
      fun r => r.length.toNat).sum = plen := by
  rw [List.map_map]
  have hlengths : ((fun r => r.length.toNat) ∘ roundAt np plen chunk total) =
      fun i => min (plen - i * chunk) chunk := funext fun i => roundAt_length hchunk
  rw [hlengths, sum_min, Nat.min_eq_left (le_chunkCount_mul hpos)]

-- No two rounds share a nonce, and none has that of the name.
theorem nodup_roundAt (htotal : total < 2 ^ 64) :
    (nonce np nameIndex ::
      ((List.range total).map (roundAt np plen chunk total)).map Round.nonce).Nodup := by
  rw [List.map_map, List.nodup_cons]
  constructor
  · intro hname
    obtain ⟨i, hi, hsame⟩ := List.mem_map.mp hname
    have hlt := List.mem_range.mp hi
    have hindex := (nonce_inj (hlt.trans htotal) (by decide) hsame).2
    rw [nameIndex] at hindex
    omega
  · refine List.Nodup.map_on (fun i hi j hj hsame => ?_) List.nodup_range
    exact (nonce_inj ((List.mem_range.mp hi).trans htotal) ((List.mem_range.mp hj).trans htotal) hsame).2

theorem regular_roundsFrom (hpos : 0 < chunk) (hchunk : chunk < 2 ^ 64)
    (htotal : chunkCount plen chunk < 2 ^ 64) :
    Regular np plen chunk
      (roundsFrom np plen chunk (chunkCount plen chunk) 0 (chunkCount plen chunk)) := by
  have hcount := @chunkCount_pos plen chunk hpos
  have hrounds : roundsFrom np plen chunk (chunkCount plen chunk) 0 (chunkCount plen chunk) =
      (List.range (chunkCount plen chunk)).map (roundAt np plen chunk (chunkCount plen chunk)) := by
    rw [roundsFrom, List.range_eq_range']
  rw [hrounds]
  refine ⟨by simp, indices_roundAt htotal, marked_roundAt hcount, fun r hr hlast => ?_, fun r hr hlast => ?_,
    sum_roundAt hpos hchunk, nodup_roundAt htotal⟩
  · obtain ⟨i, hi, rfl⟩ := List.mem_map.mp hr
    have hne : ¬i + 1 = chunkCount plen chunk := of_decide_eq_false hlast
    have hlt := List.mem_range.mp hi
    exact full_roundAt hchunk (by omega)
  · obtain ⟨i, hi, rfl⟩ := List.mem_map.mp hr
    have heq : i + 1 = chunkCount plen chunk := of_decide_eq_true hlast
    obtain rfl : i = chunkCount plen chunk - 1 := by omega
    exact last_roundAt hpos hchunk

end Regular

-- The errors a chunk loop ends early with.

def SealStops (P : Primitives) (dek : Dek) (e : Error) : Prop :=
  (∃ why, e = .io why) ∨ (e = .envelopeSeal ∧ ∃ n aad msg, P.aead.encrypt dek n aad msg = none)

def OpenStops (e : Error) : Prop := e = .truncated ∨ (∃ index, e = .chunkAuth index) ∨ ∃ why, e = .io why

section Errors

variable {P : Primitives} {sink : Sink} {dek : Dek} {np : NoncePrefix} {headerHash : HeaderHash}
  {chunk total : Nat} {e : Error}

theorem writeAll_eq_error {written more : Bytes} (h : writeAll sink written more = .error e) :
    e = .io .other := by
  unfold writeAll at h
  split_ifs at h
  cases h
  rfl

theorem encryptOrFail_eq_error {n : FixedBytes 24} {aad msg : Bytes}
    (h : encryptOrFail P dek n aad msg = .error e) :
    e = .envelopeSeal ∧ P.aead.encrypt dek n aad msg = none := by
  unfold encryptOrFail at h
  split at h
  · cases h
    exact ⟨rfl, ‹_›⟩
  · cases h

theorem sealLoop_eq_error {fuel index remaining : Nat} {r : Reader} {written hashed : Bytes}
    (h : sealLoop P sink dek np headerHash chunk total fuel index remaining r written hashed =
      .error e) : SealStops P dek e := by
  induction fuel generalizing index remaining r written hashed with
  | zero => cases h
  | succ fuel ih =>
      rw [sealLoop] at h
      split at h
      · cases h
        exact .inl ⟨_, rfl⟩
      · rename_i buf r' hread
        dsimp only at h
        cases hencrypt : encryptOrFail P dek (nonce np index)
            (chunkAad headerHash index (decide (index + 1 = total))) buf with
        | error why =>
            rw [hencrypt, error_bind] at h
            cases h
            obtain ⟨rfl, hnone⟩ := encryptOrFail_eq_error hencrypt
            exact .inr ⟨rfl, _, _, _, hnone⟩
        | ok frame =>
            rw [hencrypt, ok_bind] at h
            cases hwrite : writeAll sink written frame with
            | error why =>
                rw [hwrite, error_bind] at h
                cases h
                exact .inl ⟨_, writeAll_eq_error hwrite⟩
            | ok written' =>
                rw [hwrite, ok_bind] at h
                split at h
                · cases h
                · exact ih h

theorem openLoop_eq_error {left index remaining : Nat} {r : Reader} {hashed written : Bytes}
    (h : (openLoop P sink dek np headerHash chunk total left index remaining r hashed written).1 =
      .error e) : OpenStops e := by
  induction left generalizing index remaining r hashed written with
  | zero => cases h
  | succ left ih =>
      rw [openLoop] at h
      dsimp only at h
      split at h
      · cases h
        exact .inl rfl
      · split at h
        · cases h
          exact .inr (.inl ⟨_, rfl⟩)
        · split at h
          · exact ih h
          · cases h
            exact .inr (.inr ⟨_, rfl⟩)

end Errors

-- A loop came to an end as the loop over unbounded numbers does, no sum or difference having gone
-- out of range: after all the chunks it should do, or before with an error of these.
structure Exact {α : Type} (np : NoncePrefix) (plen chunk : Nat) (stops : Error → Prop)
    (rounds : List Round) (out : Ended α) (result : Result α) : Prop where
  ended : out = .ofResult result
  early : ∀ e, out = .failed e → stops e
  planned : ∃ plan, Regular np plen chunk plan ∧ rounds <+: plan ∧
    ∀ finished, out = .done finished → rounds = plan

theorem KeepsTo.exact {α : Type} {np : NoncePrefix} {plen chunk : Nat} {stops : Error → Prop}
    {plan rounds : List Round} {ended : Ended α} {result : Result α}
    (h : KeepsTo plan rounds ended result) (hplan : Regular np plen chunk plan)
    (hstops : ∀ e, result = .error e → stops e) : Exact np plen chunk stops rounds ended result := by
  obtain ⟨rfl, hused, hall⟩ := h
  cases result with
  | error e =>
      refine ⟨rfl, fun why hwhy => ?_, plan, hplan, hused, fun out hout => ?_⟩
      · cases hwhy
        exact hstops e rfl
      · cases hout
  | ok out =>
      refine ⟨rfl, fun why hwhy => ?_, plan, hplan, hused, fun _ _ => hall out rfl⟩
      cases hwhy

-- Whatever the length, the chunk size, the input and the output, the loop of a seal and that of an
-- open of any accepted header do the chunks one by one, as many as `chunk_count` says.
theorem chunk_loops_exact (P : Primitives) (sink : Sink) (dek : Dek) (headerHash : HeaderHash) :
    (∀ (np : NoncePrefix) (plen chunk : UInt64), 0 < chunk.toNat → ∃ total,
      checkedChunkCount plen chunk = some total ∧ total.toNat = chunkCount plen.toNat chunk.toNat ∧
        ∀ fuel r written hashed, total.toNat ≤ fuel →
          Exact np plen.toNat chunk.toNat (SealStops P dek)
            (sealRounds P sink dek np headerHash chunk total fuel 0 plen r written hashed).1
            (sealRounds P sink dek np headerHash chunk total fuel 0 plen r written hashed).2
            (sealLoop P sink dek np headerHash chunk.toNat total.toNat total.toNat 0 plen.toNat r
              written hashed)) ∧
    ∀ h : Header, validateHeader h = .ok () →
      ∃ total, checkedChunkCount h.body.plen h.body.chunk.toUInt64 = some total ∧
        total.toNat = chunkCount h.body.plen.toNat h.body.chunk.toNat ∧
        ∀ fuel r hashed written, total.toNat < fuel →
          Exact h.body.np h.body.plen.toNat h.body.chunk.toNat OpenStops
            (openRounds P sink dek h.body.np headerHash h.body.chunk.toUInt64 total fuel 0 h.body.plen r
              hashed written).1
            (openRounds P sink dek h.body.np headerHash h.body.chunk.toUInt64 total fuel 0 h.body.plen r
              hashed written).2.1
            (openLoop P sink dek h.body.np headerHash h.body.chunk.toNat total.toNat total.toNat 0
              h.body.plen.toNat r hashed written).1 := by
  constructor
  · intro np plen chunk hpos
    obtain ⟨total, htotal, hvalue⟩ := checkedChunkCount_eq plen chunk hpos
    refine ⟨total, htotal, hvalue, fun fuel r written hashed hfuel => ?_⟩
    have hregular := @regular_roundsFrom np plen.toNat chunk.toNat hpos chunk.toNat_lt
      (hvalue ▸ total.toNat_lt)
    rw [← hvalue] at hregular
    have hleft : 0 < total.toNat := hvalue ▸ chunkCount_pos hpos
    exact (sealRounds_runs total.toNat hleft hfuel (by simp) (by simp)).exact hregular
      fun e he => sealLoop_eq_error he
  · intro h hvalid
    obtain ⟨-, ⟨hzero, hmax⟩, -⟩ := validateHeader_eq_ok.mp hvalid
    have hpos : 0 < h.body.chunk.toNat := by
      by_contra hnot
      exact hzero (UInt32.toNat_inj.mp (by rw [UInt32.toNat_zero]; omega))
    obtain ⟨total, htotal, hvalue⟩ := checkedChunkCount_eq h.body.plen h.body.chunk.toUInt64
      (by rwa [UInt32.toNat_toUInt64])
    rw [UInt32.toNat_toUInt64] at hvalue
    refine ⟨total, htotal, hvalue, fun fuel r hashed written hfuel => ?_⟩
    have hregular := @regular_roundsFrom h.body.np h.body.plen.toNat h.body.chunk.toNat hpos
      (h.body.chunk.toNat_lt.trans (by decide)) (hvalue ▸ total.toNat_lt)
    rw [← hvalue] at hregular
    have hruns := (@openRounds_runs P sink dek h.body.np headerHash h.body.chunk.toUInt64 total
      h.body.plen.toNat total.toNat fuel 0 h.body.plen r hashed written
      (by rwa [UInt32.toNat_toUInt64]) hfuel (by simp) (by simp)).1
    rw [UInt32.toNat_toUInt64] at hruns
    exact hruns.exact hregular fun e he => openLoop_eq_error he

namespace Reference

-- A header of the most bytes in the smallest chunks.
def longest : Header where
  body :=
    { fid := .replicate 32 0
      salt := .replicate 16 0
      ver := 1
      prev := none
      own := [1]
      opub := none
      pol := .defaultPolicy
      cipher := cipherXChaCha20Poly1305Chunked
      chunk := 1
      plen := 18446744073709551615
      np := .replicate 16 0
      name := .replicate 80 0
      env := [⟨.replicate 16 0, algHpkeX25519ChaCha, [], []⟩] }
  sigk := []
  sig := []

theorem longest_exact :
    (∃ total, checkedChunkCount longest.body.plen longest.body.chunk.toUInt64 = some total ∧
      total.toNat = 18446744073709551615) ∧
    ∃ total, checkedChunkCount 3 2 = some total ∧ ∀ ended,
      (sealRounds primitives .memory (.replicate 32 7) (.replicate 16 8) (.replicate 32 9) 2 total 2 0 3
        (.ofData [1, 2, 3] fun _ => 1) [] []).2 = ended → ended ≠ .overflow ∧ ended ≠ .outOfFuel := by
  have h := chunk_loops_exact primitives .memory (.replicate 32 7) (.replicate 32 9)
  constructor
  · obtain ⟨total, htotal, hvalue, -⟩ := h.2 longest (by decide +kernel)
    exact ⟨total, htotal, hvalue.trans (by decide +kernel)⟩
  · obtain ⟨total, htotal, hvalue, hexact⟩ := h.1 (.replicate 16 8) 3 2 (by decide)
    have hfuel : total.toNat ≤ 2 := by
      rw [hvalue]
      decide
    refine ⟨total, htotal, ?_⟩
    rintro _ rfl
    rw [(hexact 2 (.ofData [1, 2, 3] fun _ => 1) [] [] hfuel).ended]
    constructor <;> (unfold Ended.ofResult; split <;> simp)

end Reference

end Zbacs.Core
