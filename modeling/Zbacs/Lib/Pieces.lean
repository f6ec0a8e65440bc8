import Zbacs.Lib.Bytes

namespace Zbacs.Lib

variable {α : Type*}

-- The first `count` pieces of a list cut every `size` elements.
def pieces (size : Nat) : Nat → List α → List (List α)
  | 0, _ => []
  | count + 1, xs => xs.take size :: pieces size count (xs.drop size)

-- `div_ceil`
def divCeil (a b : Nat) : Nat := (a + b - 1) / b

-- How many pieces of at most `size` elements a list of `length` elements
-- takes; an empty list is one empty piece.
def pieceCount (length size : Nat) : Nat :=
  if length = 0 then 1 else divCeil length size

theorem le_divCeil_mul (a b : Nat) (hb : 0 < b) : a ≤ divCeil a b * b := by
  have hlt := Nat.lt_mul_div_succ (a + b - 1) hb
  rw [Nat.mul_add, Nat.mul_one, Nat.mul_comm] at hlt
  unfold divCeil
  omega

theorem length_pieces (size count : Nat) (xs : List α) : (pieces size count xs).length = count := by
  induction count generalizing xs with
  | zero => rfl
  | succ count ih => simp [pieces, ih]

theorem flatten_pieces (size count : Nat) (xs : List α) :
    (pieces size count xs).flatten = xs.take (count * size) := by
  induction count generalizing xs with
  | zero => simp [pieces]
  | succ count ih =>
      rw [pieces, List.flatten_cons, ih, Nat.succ_mul, Nat.add_comm, List.take_add]

theorem take_pieces {size count k : Nat} {xs : List α} (hk : k ≤ count) :
    (pieces size count xs).take k = pieces size k xs := by
  induction k generalizing count xs with
  | zero => simp [pieces]
  | succ k ih =>
      obtain ⟨count, rfl⟩ : ∃ c, count = c + 1 := ⟨count - 1, by omega⟩
      rw [pieces, pieces, List.take_succ_cons, ih (by omega)]

theorem pieces_map {β : Type*} (f : α → β) (size count : Nat) (xs : List α) :
    pieces size count (xs.map f) = (pieces size count xs).map (List.map f) := by
  induction count generalizing xs with
  | zero => rfl
  | succ count ih => rw [pieces, pieces, ← List.map_take, ← List.map_drop, ih, List.map_cons]

theorem mem_of_mem_pieces {size count : Nat} {xs piece : List α} (h : piece ∈ pieces size count xs)
    {a : α} (ha : a ∈ piece) : a ∈ xs := by
  have hflat : a ∈ (pieces size count xs).flatten := List.mem_flatten.mpr ⟨piece, h, ha⟩
  rw [flatten_pieces] at hflat
  exact List.mem_of_mem_take hflat

theorem pieceCount_pos (length size : Nat) (hsize : 0 < size) : 0 < pieceCount length size := by
  unfold pieceCount
  split_ifs with h
  · exact Nat.one_pos
  · exact Nat.div_pos (by omega) hsize

theorem le_pieceCount_mul (length size : Nat) (hsize : 0 < size) :
    length ≤ pieceCount length size * size := by
  unfold pieceCount
  split_ifs with h
  · omega
  · exact le_divCeil_mul length size hsize

theorem flatten_pieces_pieceCount (size : Nat) (xs : List α) (hsize : 0 < size) :
    (pieces size (pieceCount xs.length size) xs).flatten = xs := by
  rw [flatten_pieces, List.take_of_length_le (le_pieceCount_mul _ _ hsize)]

theorem pieceCount_le (length size bound : Nat) (hsize : 0 < size) (hb : 0 < bound)
    (h : length ≤ bound) : pieceCount length size ≤ bound := by
  unfold pieceCount
  split_ifs with hz
  · exact hb
  · apply (Nat.div_le_iff_le_mul_add_pred hsize).mpr
    have : bound ≤ size * bound := Nat.le_mul_of_pos_left bound hsize
    omega

section Slice

-- The elements from position `first` up to the one before `last`.
def slice (first last : Nat) (xs : List α) : List α := (xs.take last).drop first

variable {first middle last : Nat} {xs : List α}

theorem slice_self (first : Nat) (xs : List α) : slice first first xs = [] :=
  List.drop_eq_nil_of_le (List.length_take_le _ _)

theorem slice_append (h₁ : first ≤ middle) (h₂ : middle ≤ last) :
    slice first last xs = slice first middle xs ++ slice middle last xs := by
  obtain ⟨m, rfl⟩ := Nat.exists_eq_add_of_le h₁
  have htake : xs.take (first + m) = (xs.take last).take (first + m) := by
    rw [List.take_take, Nat.min_eq_left h₂]
  rw [slice, slice, slice, htake]
  generalize xs.take last = ys
  rw [List.drop_take, Nat.add_sub_cancel_left, ← List.drop_drop, List.take_append_drop]

-- What is added behind it leaves a slice alone.
theorem slice_append_left (more : List α) (h : last ≤ xs.length) :
    slice first last (xs ++ more) = slice first last xs := by
  rw [slice, List.take_append_of_le_length h, slice]

end Slice

end Zbacs.Lib
