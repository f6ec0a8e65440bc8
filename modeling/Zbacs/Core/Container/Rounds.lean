import Mathlib.Data.List.Range
import Zbacs.Core.Container.Integrity

namespace Zbacs.Core

open Zbacs.Lib

-- The chunk loops on the machine's own integers. A sum or a difference that does not fit stops
-- them, and so does running out of fuel; every nonce they use is taken down.

def checkedAdd (a b : UInt64) : Option UInt64 :=
  if a.toNat + b.toNat < 2 ^ 64 then some (a + b) else none

def checkedSub (a b : UInt64) : Option UInt64 := if b ≤ a then some (a - b) else none

-- `plen.div_ceil(chunk)`, or 1
def checkedChunkCount (plen chunk : UInt64) : Option UInt64 :=
  if plen = 0 then some 1
  else if plen % chunk > 0 then checkedAdd (plen / chunk) 1
  else some (plen / chunk)

-- One use of the cipher: the index of the chunk, the length of its plaintext, whether it is
-- marked as the last, and the nonce.
structure Round where
  index : UInt64
  length : UInt64
  isLast : Bool
  nonce : FixedBytes 24
deriving DecidableEq

inductive Ended (α : Type) where
  | overflow
  | outOfFuel
  | failed (e : Error)
  | done (result : α)

def Ended.ofResult {α : Type} : Result α → Ended α
  | .error e => .failed e
  | .ok result => .done result

section Loops

variable (P : Primitives)

-- The `loop` of `seal_signed`.
def sealRounds (sink : Sink) (dek : Dek) (np : NoncePrefix) (headerHash : HeaderHash)
    (chunk total : UInt64) :
    Nat → UInt64 → UInt64 → Reader → Bytes → Bytes → List Round × Ended (Bytes × Bytes)
  | 0, _, _, _, _, _ => ([], .outOfFuel)
  | fuel + 1, index, remaining, r, written, hashed =>
      let want := min remaining chunk
      match r.readExact want.toNat with
      | none => ([], .failed (.io .unexpectedEof))
      | some (buf, r) => match checkedAdd index 1 with
        | none => ([], .overflow)
        | some next =>
          let isLast := decide (next = total)
          let n := nonce np index.toNat
          let round : Round := ⟨index, want, isLast, n⟩
          match encryptOrFail P dek n (chunkAad headerHash index.toNat isLast) buf with
          | .error e => ([round], .failed e)
          | .ok frame => match writeAll sink written frame with
            | .error e => ([round], .failed e)
            | .ok written => match checkedSub remaining want, checkedAdd index 1 with
              | some remaining, some index =>
                  if isLast then ([round], .done (written, hashed ++ frame))
                  else
                    let (rounds, ended) := sealRounds sink dek np headerHash chunk total fuel index
                      remaining r written (hashed ++ frame)
                    (round :: rounds, ended)
              | _, _ => ([round], .overflow)

-- `for index in 0..total` of `open_with_dek`, and what it wrote.
def openRounds (sink : Sink) (dek : Dek) (np : NoncePrefix) (headerHash : HeaderHash)
    (chunk total : UInt64) :
    Nat → UInt64 → UInt64 → Reader → Bytes → Bytes → List Round × Ended (Reader × Bytes) × Bytes
  | 0, _, _, _, _, written => ([], .outOfFuel, written)
  | fuel + 1, index, remaining, r, hashed, written =>
      if index < total then match checkedAdd (min remaining chunk) (.ofNat tagLen) with
        | none => ([], .overflow, written)
        | some want => match r.readExact want.toNat with
          | none => ([], .failed .truncated, written)
          | some (frame, r) => match checkedAdd index 1 with
            | none => ([], .overflow, written)
            | some next =>
              let isLast := decide (next = total)
              let n := nonce np index.toNat
              let round : Round := ⟨index, min remaining chunk, isLast, n⟩
              match P.aead.decrypt dek n (chunkAad headerHash index.toNat isLast) frame with
              | none => ([round], .failed (.chunkAuth index.toNat), written)
              | some pt =>
                if sink.accepts (written ++ pt).length then
                  match (checkedSub want (.ofNat tagLen)).bind (checkedSub remaining) with
                  | none => ([round], .overflow, written ++ pt)
                  | some remaining =>
                    let (rounds, out) := openRounds sink dek np headerHash chunk total fuel next
                      remaining r (hashed ++ frame) (written ++ pt)
                    (round :: rounds, out)
                else ([round], .failed (.io .other), written ++ pt)
      else ([], .done (r, hashed), written)

end Loops

-- The rounds there should be.
def roundAt (np : NoncePrefix) (plen chunk total i : Nat) : Round :=
  ⟨.ofNat i, .ofNat (min (plen - i * chunk) chunk), decide (i + 1 = total), nonce np i⟩

def roundsFrom (np : NoncePrefix) (plen chunk total index left : Nat) : List Round :=
  (List.range' index left).map (roundAt np plen chunk total)

-- A loop did what another one does, and used nonces of these rounds in turn: all of them if it
-- came to its end.
structure KeepsTo {α : Type} (plan rounds : List Round) (ended : Ended α) (result : Result α) : Prop where
  ended : ended = .ofResult result
  used : rounds <+: plan
  all : ∀ out, result = .ok out → rounds = plan

section Checked

variable {a b c : UInt64}

theorem checkedAdd_of_lt (h : a.toNat + b.toNat < 2 ^ 64) :
    ∃ c, checkedAdd a b = some c ∧ c.toNat = a.toNat + b.toNat :=
  ⟨a + b, if_pos h, by rw [UInt64.toNat_add, Nat.mod_eq_of_lt h]⟩

theorem checkedSub_of_le (h : b.toNat ≤ a.toNat) :
    ∃ c, checkedSub a b = some c ∧ c.toNat = a.toNat - b.toNat :=
  ⟨a - b, if_pos (UInt64.le_iff_toNat_le.mpr h), UInt64.toNat_sub_of_le _ _ (UInt64.le_iff_toNat_le.mpr h)⟩

theorem toNat_min : (min a b).toNat = min a.toNat b.toNat := by
  change (if a ≤ b then a else b).toNat = _
  split_ifs with h
  · exact (Nat.min_eq_left (UInt64.le_iff_toNat_le.mp h)).symm
  · exact (Nat.min_eq_right (Nat.le_of_lt (Nat.not_le.mp fun hle => h (UInt64.le_iff_toNat_le.mpr hle)))).symm

theorem divCeil_mul_add (size count rest : Nat) (hrest : rest < size) :
    divCeil (size * count + rest) size = count + if rest = 0 then 0 else 1 := by
  unfold divCeil
  split_ifs with hzero
  · refine Nat.div_eq_of_lt_le ?_ ?_
    · rw [Nat.add_zero, Nat.mul_comm]
      omega
    · rw [Nat.add_zero, Nat.succ_mul, Nat.mul_comm count]
      omega
  · refine Nat.div_eq_of_lt_le ?_ ?_
    · rw [Nat.succ_mul, Nat.mul_comm count]
      omega
    · rw [Nat.succ_mul, Nat.succ_mul, Nat.mul_comm count]
      omega

-- Rounding up does not overflow, and gives the count of the loops over unbounded numbers.
theorem checkedChunkCount_eq (plen chunk : UInt64) (hchunk : 0 < chunk.toNat) :
    ∃ total, checkedChunkCount plen chunk = some total ∧
      total.toNat = chunkCount plen.toNat chunk.toNat := by
  have hdivmod := Nat.div_add_mod plen.toNat chunk.toNat
  have hceil := divCeil_mul_add chunk.toNat (plen.toNat / chunk.toNat) _ (Nat.mod_lt plen.toNat hchunk)
  rw [hdivmod] at hceil
  by_cases hzero : plen = 0
  · exact ⟨1, by rw [checkedChunkCount, if_pos hzero], by rw [hzero]; rfl⟩
  · have hne : plen.toNat ≠ 0 := fun h => hzero (UInt64.toNat_inj.mp h)
    rw [chunkCount, if_neg hne, hceil, checkedChunkCount, if_neg hzero]
    by_cases hrest : plen % chunk > 0
    · have hpos : 0 < plen.toNat % chunk.toNat := by
        simpa [UInt64.lt_iff_toNat_lt, UInt64.toNat_mod] using hrest
      have hle := Nat.le_mul_of_pos_left (plen.toNat / chunk.toNat) hchunk
      have hfits : (plen / chunk).toNat + (1 : UInt64).toNat < 2 ^ 64 := by
        have hbound := plen.toNat_lt
        rw [UInt64.toNat_div, UInt64.toNat_one]
        omega
      obtain ⟨total, htotal, hvalue⟩ := checkedAdd_of_lt hfits
      refine ⟨total, by rw [if_pos hrest, htotal], ?_⟩
      rw [hvalue, if_neg (Nat.ne_of_gt hpos), UInt64.toNat_div, UInt64.toNat_one]
    · have hnone : plen.toNat % chunk.toNat = 0 := by
        simpa [UInt64.lt_iff_toNat_lt, UInt64.toNat_mod] using hrest
      exact ⟨plen / chunk, by rw [if_neg hrest], by rw [hnone, if_pos rfl, UInt64.toNat_div]; rfl⟩

end Checked

section KeepsTo

variable {α : Type} {plan rounds : List Round} {round : Round} {ended : Ended α} {result : Result α}
  {e : Error}

theorem KeepsTo.before : KeepsTo plan [] (.failed e : Ended α) (.error e) :=
  ⟨rfl, List.nil_prefix, fun _ h => by cases h⟩

theorem KeepsTo.within : KeepsTo (round :: plan) [round] (.failed e : Ended α) (.error e) :=
  ⟨rfl, ⟨plan, rfl⟩, fun _ h => by cases h⟩

theorem KeepsTo.cons (h : KeepsTo plan rounds ended result) :
    KeepsTo (round :: plan) (round :: rounds) ended result :=
  ⟨h.ended, List.cons_prefix_cons.mpr ⟨rfl, h.used⟩, fun out hout => by rw [h.all out hout]⟩

end KeepsTo

section Rounds

variable {P : Primitives} {sink : Sink} {dek : Dek} {np : NoncePrefix} {headerHash : HeaderHash}
  {chunk total : UInt64} {plen : Nat}

theorem roundsFrom_succ (index left : Nat) : roundsFrom np plen chunk.toNat total.toNat index (left + 1) =
    roundAt np plen chunk.toNat total.toNat index ::
      roundsFrom np plen chunk.toNat total.toNat (index + 1) left := rfl

theorem roundAt_eq {index want : UInt64} {isLast : Bool}
    (hwant : want.toNat = min (plen - index.toNat * chunk.toNat) chunk.toNat)
    (hlast : isLast = decide (index.toNat + 1 = total.toNat)) :
    roundAt np plen chunk.toNat total.toNat index.toNat =
      ⟨index, want, isLast, nonce np index.toNat⟩ := by
  rw [roundAt, ← hwant, ← hlast, UInt64.ofNat_toNat, UInt64.ofNat_toNat]

-- The index of a chunk can be counted up, and tells the last one.
theorem nextIndex {index : UInt64} {left : Nat} (hindex : index.toNat + (left + 1) = total.toNat) :
    ∃ next, checkedAdd index 1 = some next ∧ next.toNat = index.toNat + 1 ∧
      decide (next = total) = decide (index.toNat + 1 = total.toNat) := by
  have hbound := total.toNat_lt
  obtain ⟨next, hnext, hvalue⟩ := @checkedAdd_of_lt index 1 (by rw [UInt64.toNat_one]; omega)
  rw [UInt64.toNat_one] at hvalue
  refine ⟨next, hnext, hvalue, ?_⟩
  rw [decide_eq_decide, ← UInt64.toNat_inj, hvalue]

-- The sizes of a round that opens: a frame is a tag longer than its text, and the text comes off what
-- is left.
theorem nextSizes (remaining : UInt64) (hchunk : chunk.toNat ≤ maxChunk) :
    ∃ want text remaining', checkedAdd (min remaining chunk) (.ofNat tagLen) = some want ∧
      checkedSub want (.ofNat tagLen) = some text ∧ checkedSub remaining text = some remaining' ∧
      want.toNat = min remaining.toNat chunk.toNat + tagLen ∧
      text.toNat = min remaining.toNat chunk.toNat ∧ remaining'.toNat = remaining.toNat - text.toNat := by
  have hshort : (min remaining chunk).toNat = min remaining.toNat chunk.toNat := toNat_min
  have htag : (UInt64.ofNat tagLen).toNat = tagLen := rfl
  obtain ⟨want, hwant, hwantValue⟩ := @checkedAdd_of_lt (min remaining chunk) (.ofNat tagLen) (by
    rw [hshort, htag]
    simp only [maxChunk, tagLen] at hchunk ⊢
    omega)
  rw [htag, hshort] at hwantValue
  obtain ⟨text, htext, htextValue⟩ := @checkedSub_of_le want (.ofNat tagLen) (by
    rw [hwantValue, htag]
    exact Nat.le_add_left ..)
  rw [htag, hwantValue, Nat.add_sub_cancel] at htextValue
  obtain ⟨remaining', hsub, hremaining'⟩ := @checkedSub_of_le remaining text (by
    rw [htextValue]
    exact Nat.min_le_left ..)
  exact ⟨want, text, remaining', hwant, htext, hsub, hwantValue, htextValue, hremaining'⟩

-- What is left of the plaintext once a chunk is taken off.
theorem remaining_next {index next remaining remaining' : UInt64} (hvalue : next.toNat = index.toNat + 1)
    (hremaining : remaining.toNat = plen - index.toNat * chunk.toNat)
    (hrest : remaining'.toNat = remaining.toNat - min remaining.toNat chunk.toNat) :
    remaining'.toNat = plen - next.toNat * chunk.toNat := by
  rw [hrest, hremaining, hvalue, Nat.succ_mul]
  omega

-- The loop of a seal, with as many rounds to go as there are chunks left.
theorem sealRounds_runs (left : Nat) {fuel : Nat} {index remaining : UInt64} {r : Reader}
    {written hashed : Bytes} (hleft : 0 < left) (hfuel : left ≤ fuel)
    (hindex : index.toNat + left = total.toNat)
    (hremaining : remaining.toNat = plen - index.toNat * chunk.toNat) :
    KeepsTo (roundsFrom np plen chunk.toNat total.toNat index.toNat left)
      (sealRounds P sink dek np headerHash chunk total fuel index remaining r written hashed).1
      (sealRounds P sink dek np headerHash chunk total fuel index remaining r written hashed).2
      (sealLoop P sink dek np headerHash chunk.toNat total.toNat left index.toNat remaining.toNat r
        written hashed) := by
  induction left generalizing fuel index remaining r written hashed with
  | zero => omega
  | succ left ih =>
      obtain ⟨fuel, rfl⟩ : ∃ f, fuel = f + 1 := ⟨fuel - 1, by omega⟩
      have hwant : (min remaining chunk).toNat = min remaining.toNat chunk.toNat := toNat_min
      obtain ⟨next, hnext, hvalue, hlast⟩ := nextIndex hindex
      obtain ⟨remaining', hsub, hremaining'⟩ := @checkedSub_of_le remaining (min remaining chunk)
        (by rw [hwant]; exact Nat.min_le_left ..)
      rw [roundsFrom_succ, roundAt_eq (hremaining ▸ hwant) hlast, sealRounds, sealLoop]
      simp only [hwant, hnext, hsub, hlast]
      cases hread : r.readExact (min remaining.toNat chunk.toNat) with
      | none => exact .before
      | some read =>
          obtain ⟨buf, r⟩ := read
          dsimp only
          cases henc : encryptOrFail P dek (nonce np index.toNat)
              (chunkAad headerHash index.toNat (decide (index.toNat + 1 = total.toNat))) buf with
          | error e => exact .within
          | ok frame =>
              cases hwrite : writeAll sink written frame with
              | error e =>
                  simp only [ok_bind, hwrite]
                  exact .within
              | ok written =>
                  simp only [ok_bind, hwrite]
                  by_cases hend : index.toNat + 1 = total.toNat
                  · obtain rfl : left = 0 := by omega
                    simp only [hend, decide_true, if_true]
                    exact ⟨rfl, List.prefix_rfl, fun _ _ => rfl⟩
                  · simp only [hend, decide_false, Bool.false_eq_true, if_false]
                    rw [← hvalue, ← hwant, ← hremaining']
                    exact (ih (by omega) (by omega) (by omega)
                      (remaining_next hvalue hremaining (hwant ▸ hremaining'))).cons

-- The loop of an open, with as many rounds to go as there are chunks left, and one more to see
-- that the range is at its end.
theorem openRounds_runs (left : Nat) {fuel : Nat} {index remaining : UInt64} {r : Reader}
    {hashed written : Bytes} (hchunk : chunk.toNat ≤ maxChunk) (hfuel : left < fuel)
    (hindex : index.toNat + left = total.toNat)
    (hremaining : remaining.toNat = plen - index.toNat * chunk.toNat) :
    KeepsTo (roundsFrom np plen chunk.toNat total.toNat index.toNat left)
      (openRounds P sink dek np headerHash chunk total fuel index remaining r hashed written).1
      (openRounds P sink dek np headerHash chunk total fuel index remaining r hashed written).2.1
      (openLoop P sink dek np headerHash chunk.toNat total.toNat left index.toNat remaining.toNat r
        hashed written).1 ∧
    (openRounds P sink dek np headerHash chunk total fuel index remaining r hashed written).2.2 =
      (openLoop P sink dek np headerHash chunk.toNat total.toNat left index.toNat remaining.toNat r
        hashed written).2 := by
  obtain ⟨fuel, rfl⟩ : ∃ f, fuel = f + 1 := ⟨fuel - 1, by omega⟩
  induction left generalizing fuel index remaining r hashed written with
  | zero =>
      have hend : ¬ index < total := by
        rw [UInt64.lt_iff_toNat_lt]
        omega
      rw [openRounds, if_neg hend]
      exact ⟨⟨rfl, List.prefix_rfl, fun _ _ => rfl⟩, rfl⟩
  | succ left ih =>
      have hgo : index < total := UInt64.lt_iff_toNat_lt.mpr (by omega)
      have hshort : (min remaining chunk).toNat = min remaining.toNat chunk.toNat := toNat_min
      obtain ⟨want, text, remaining', hwant, htext, hsub, hwantValue, htextValue, hremaining'⟩ :=
        nextSizes remaining hchunk
      obtain ⟨next, hnext, hvalue, hlast⟩ := nextIndex hindex
      rw [roundsFrom_succ, roundAt_eq (hremaining ▸ hshort) hlast, openRounds, if_pos hgo, openLoop]
      simp only [hwant, hwantValue, hnext, htext, Option.bind_some, hsub, hlast]
      cases hread : r.readExact (min remaining.toNat chunk.toNat + tagLen) with
      | none => exact ⟨.before, rfl⟩
      | some read =>
          obtain ⟨frame, r⟩ := read
          dsimp only
          cases hdec : P.aead.decrypt dek (nonce np index.toNat)
              (chunkAad headerHash index.toNat (decide (index.toNat + 1 = total.toNat))) frame with
          | none => exact ⟨.within, rfl⟩
          | some pt =>
              dsimp only
              by_cases haccepts : sink.accepts (written ++ pt).length = true
              · simp only [haccepts, if_true]
                rw [Nat.add_sub_cancel, ← hvalue, ← htextValue, ← hremaining']
                obtain ⟨fuel, rfl⟩ : ∃ f, fuel = f + 1 := ⟨fuel - 1, by omega⟩
                have hrest := remaining_next hvalue hremaining (htextValue ▸ hremaining')
                obtain ⟨hruns, hsame⟩ := @ih next remaining' r (hashed ++ frame) (written ++ pt)
                  (by omega) hrest fuel (by omega)
                exact ⟨hruns.cons, hsame⟩
              · simp only [haccepts, Bool.false_eq_true, if_false]
                exact ⟨.within, trivial⟩

end Rounds

end Zbacs.Core
