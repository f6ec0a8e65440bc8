import Zbacs.Lib.Abi

namespace Zbacs.Lib.Abi.Args

-- What has no fixed length inside of what has none.

variable {α : Type}

-- What comes after an encoding is not looked at.
theorem decode_append (p : Args α) {a : α} (rest : Bytes) (h : (p.encode a).length < 2 ^ 64) :
    p.decode (p.encode a ++ rest) = some a := by
  have hlen := p.length_head p.headLen a
  rw [p.length_encode] at h
  have hhead : (p.encode a ++ rest).take p.headLen = p.head p.headLen a := by
    rw [encode, List.append_assoc, List.take_left' hlen]
  have htail : (p.encode a ++ rest).drop p.headLen = p.tail a ++ rest := by
    rw [encode, List.append_assoc, List.drop_left' hlen]
  have hlong : p.headLen ≤ (p.encode a ++ rest).length := by
    rw [List.length_append, p.length_encode]
    omega
  rw [decode, if_pos hlong, hhead, p.get_head _ a _ rest htail h]

-- A tuple that follows after the words. What it says of places is counted from its own beginning.
def nested (p : Args α) : Args α where
  name := "(" ++ p.name ++ ")"
  headLen := 32
  head offset _ := beBytes 32 offset
  tail a := p.encode a
  get whole word :=
    if beNat word < 2 ^ 64 then p.decode (whole.drop (beNat word)) else none
  length_head offset _ := length_beBytes 32 offset
  get_head offset a whole rest hwhole hsize := by
    have hoffset : beNat (beBytes 32 offset) = offset := beNat_beBytes (by omega)
    rw [hoffset, if_pos (by omega), hwhole]
    apply p.decode_append
    omega

-- The words of several values, the first of which has its rest at `offset`.
def heads (p : Args α) : Nat → List α → Bytes
  | _, [] => []
  | offset, a :: as => p.head offset a ++ heads p (offset + (p.tail a).length) as

-- So many values, from the words on.
def getMany (p : Args α) (whole : Bytes) : Nat → Bytes → Option (List α)
  | 0, _ => some []
  | n + 1, words => do
    let a ← p.get whole (words.take p.headLen)
    let as ← getMany p whole n (words.drop p.headLen)
    some (a :: as)

section Many

variable (p : Args α)

theorem length_heads (offset : Nat) (as : List α) :
    (p.heads offset as).length = as.length * p.headLen := by
  induction as generalizing offset with
  | nil => simp [heads]
  | cons a as ih =>
      rw [heads, List.length_append, p.length_head, ih, List.length_cons]
      ring

theorem getMany_heads (as : List α) (offset : Nat) (whole rest more : Bytes)
    (hwhole : whole.drop offset = as.flatMap p.tail ++ rest)
    (hsize : offset + (as.flatMap p.tail).length < 2 ^ 64) :
    p.getMany whole as.length (p.heads offset as ++ more) = some as := by
  induction as generalizing offset with
  | nil => rfl
  | cons a as ih =>
      have hlen := p.length_head offset a
      rw [List.flatMap_cons, List.append_assoc] at hwhole
      rw [List.flatMap_cons, List.length_append] at hsize
      have hnext : whole.drop (offset + (p.tail a).length) = as.flatMap p.tail ++ rest := by
        rw [← List.drop_drop, hwhole, List.drop_left' rfl]
      rw [List.length_cons, heads, getMany, List.append_assoc, List.take_left' hlen,
        List.drop_left' hlen, p.get_head offset a whole _ hwhole (by omega), ih _ hnext (by omega)]
      rfl

end Many

-- Any number of values: how many there are, and then they as a tuple.
def array (p : Args α) (hwords : 0 < p.headLen) : Args (List α) where
  name := p.name ++ "[]"
  headLen := 32
  head offset _ := beBytes 32 offset
  tail as := beBytes 32 as.length ++ (p.heads (as.length * p.headLen) as ++ as.flatMap p.tail)
  get whole word :=
    let found := whole.drop (beNat word)
    let n := beNat (found.take 32)
    let body := found.drop 32
    if beNat word < 2 ^ 64 ∧ 32 ≤ found.length ∧ n * p.headLen ≤ body.length then p.getMany body n body
    else none
  length_head offset _ := length_beBytes 32 offset
  get_head offset as whole rest hwhole hsize := by
    have hlen : (beBytes 32 as.length).length = 32 := length_beBytes 32 as.length
    have hheads := p.length_heads (as.length * p.headLen) as
    simp only [List.length_append, hlen, hheads] at hsize
    have hcount : as.length ≤ as.length * p.headLen := Nat.le_mul_of_pos_right _ hwords
    have hoffset : beNat (beBytes 32 offset) = offset := beNat_beBytes (by omega)
    have hlength : beNat (beBytes 32 as.length) = as.length := beNat_beBytes (by omega)
    dsimp only
    rw [hoffset, hwhole, List.append_assoc, List.take_left' hlen, List.drop_left' hlen, hlength,
      List.append_assoc]
    have hbody : (p.heads (as.length * p.headLen) as ++ (as.flatMap p.tail ++ rest)).drop
        (as.length * p.headLen) = as.flatMap p.tail ++ rest := List.drop_left' hheads
    rw [if_pos]
    · exact p.getMany_heads as _ _ rest _ hbody (by omega)
    · refine ⟨by omega, ?_, ?_⟩
      · rw [List.length_append, hlen]
        omega
      · rw [List.length_append, hheads]
        omega

-- A truth value is a word that is one or zero.
def bool : Args Bool where
  name := "bool"
  headLen := 32
  head _ b := beBytes 32 b.toNat
  tail _ := []
  get _ word := if beNat word = 0 then some false else if beNat word = 1 then some true else none
  length_head _ b := length_beBytes 32 b.toNat
  get_head _ b _ _ _ _ := by
    have hword : beNat (beBytes 32 b.toNat) = b.toNat := by
      apply beNat_beBytes
      have := b.toNat_lt
      omega
    rw [hword]
    cases b <;> rfl

end Zbacs.Lib.Abi.Args
