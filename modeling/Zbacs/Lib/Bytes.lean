import Mathlib.Data.List.TakeDrop
import Mathlib.Data.Nat.Basic
import Mathlib.Tactic.Ring

namespace Zbacs.Lib

abbrev Bytes := List UInt8

-- A byte array whose length is part of its type, as `[u8; n]` is.
structure FixedBytes (n : Nat) where
  bytes : Bytes
  length_eq : bytes.length = n
deriving DecidableEq

namespace FixedBytes

variable {n : Nat}

@[simp] theorem length_bytes (b : FixedBytes n) : b.bytes.length = n := b.length_eq

@[ext] theorem ext {a b : FixedBytes n} (h : a.bytes = b.bytes) : a = b := by
  cases a
  cases b
  simpa using h

-- `<[u8; n]>::try_from(slice)`
def ofBytes? (n : Nat) (b : Bytes) : Option (FixedBytes n) :=
  if h : b.length = n then some ⟨b, h⟩ else none

@[simp] theorem ofBytes?_bytes (b : FixedBytes n) : ofBytes? n b.bytes = some b := by
  simp [ofBytes?]

theorem ofBytes?_eq_some {b : Bytes} {f : FixedBytes n} :
    ofBytes? n b = some f ↔ b = f.bytes := by
  constructor
  · intro h
    unfold ofBytes? at h
    split at h
    · cases h
      rfl
    · cases h
  · rintro rfl
    exact ofBytes?_bytes f

def replicate (n : Nat) (b : UInt8) : FixedBytes n := ⟨List.replicate n b, by simp⟩

-- The first `n` bytes of a longer fixed array.
def take (k : Nat) (b : FixedBytes n) (h : k ≤ n) : FixedBytes k :=
  ⟨b.bytes.take k, by simp [h]⟩

-- `[..16]` of a 32-byte array.
def first16 (b : FixedBytes 32) : FixedBytes 16 := b.take 16 (by omega)

end FixedBytes

-- The `width` little-endian bytes of `value`, as `to_le_bytes` gives them.
def leBytes : Nat → Nat → Bytes
  | 0, _ => []
  | width + 1, value => UInt8.ofNat value :: leBytes width (value / 256)

-- The number a little-endian byte string stands for, as `from_le_bytes` reads it.
def leNat : Bytes → Nat
  | [] => 0
  | b :: rest => b.toNat + 256 * leNat rest

@[simp] theorem length_leBytes (width value : Nat) : (leBytes width value).length = width := by
  induction width generalizing value with
  | zero => rfl
  | succ width ih => simp [leBytes, ih]

theorem leNat_leBytes (width value : Nat) (h : value < 256 ^ width) :
    leNat (leBytes width value) = value := by
  induction width generalizing value with
  | zero =>
      have : value = 0 := by simpa using h
      simp [leBytes, leNat, this]
  | succ width ih =>
      have hdiv : value / 256 < 256 ^ width := by
        apply Nat.div_lt_of_lt_mul
        rwa [pow_succ, Nat.mul_comm] at h
      simp only [leBytes, leNat, ih _ hdiv, UInt8.toNat_ofNat']
      omega

theorem leNat_lt (b : Bytes) : leNat b < 256 ^ b.length := by
  induction b with
  | nil => simp [leNat]
  | cons b rest ih =>
      have hb := b.toNat_lt
      simp only [leNat, List.length_cons, pow_succ]
      omega

theorem leBytes_leNat (b : Bytes) : leBytes b.length (leNat b) = b := by
  induction b with
  | nil => rfl
  | cons b rest ih =>
      have hb := b.toNat_lt
      have hdiv : (b.toNat + 256 * leNat rest) / 256 = leNat rest := by omega
      have hmod : UInt8.ofNat (b.toNat + 256 * leNat rest) = b := by
        apply UInt8.toNat_inj.mp
        simp only [UInt8.toNat_ofNat']
        omega
      simp only [List.length_cons, leNat, leBytes, hdiv, hmod, ih]

theorem leBytes_inj {width a b : Nat} (ha : a < 256 ^ width) (hb : b < 256 ^ width)
    (h : leBytes width a = leBytes width b) : a = b := by
  rw [← leNat_leBytes width a ha, h, leNat_leBytes width b hb]

theorem leBytes_eq_iff {width n : Nat} {b : Bytes} (hb : b.length = width) (hn : n < 256 ^ width) :
    leNat b = n ↔ b = leBytes width n := by
  constructor
  · rintro rfl
    rw [← hb, leBytes_leNat]
  · rintro rfl
    exact leNat_leBytes width n hn

-- Network byte order, as `to_be_bytes` gives it.
def beBytes (width value : Nat) : Bytes := (leBytes width value).reverse

def beNat (b : Bytes) : Nat := leNat b.reverse

@[simp] theorem length_beBytes (width value : Nat) : (beBytes width value).length = width := by
  simp [beBytes]

theorem beNat_beBytes {width value : Nat} (h : value < 256 ^ width) :
    beNat (beBytes width value) = value := by
  rw [beNat, beBytes, List.reverse_reverse, leNat_leBytes width value h]

theorem beNat_lt (b : Bytes) : beNat b < 256 ^ b.length := by
  have h := leNat_lt b.reverse
  rw [List.length_reverse] at h
  exact h

theorem beBytes_beNat (b : Bytes) : beBytes b.length (beNat b) = b := by
  have h := leBytes_leNat b.reverse
  rw [List.length_reverse] at h
  rw [beBytes, beNat, h, List.reverse_reverse]

theorem leBytes_zero (width : Nat) : leBytes width 0 = List.replicate width 0 := by
  induction width with
  | zero => rfl
  | succ width ih =>
      rw [leBytes, Nat.zero_div, ih, List.replicate_succ]
      rfl

theorem leBytes_add {width value : Nat} (k : Nat) (h : value < 256 ^ width) :
    leBytes (width + k) value = leBytes width value ++ List.replicate k 0 := by
  induction width generalizing value with
  | zero =>
      obtain rfl : value = 0 := by simpa using h
      rw [Nat.zero_add, leBytes_zero]
      rfl
  | succ width ih =>
      have hdiv : value / 256 < 256 ^ width := by
        apply Nat.div_lt_of_lt_mul
        rwa [pow_succ, Nat.mul_comm] at h
      rw [Nat.add_right_comm, leBytes, ih hdiv, leBytes, List.cons_append]

-- A number of few bytes in a wider word.
theorem beBytes_add {width value : Nat} (k : Nat) (h : value < 256 ^ width) :
    beBytes (width + k) value = List.replicate k 0 ++ beBytes width value := by
  rw [beBytes, leBytes_add k h, List.reverse_append, List.reverse_replicate]
  rfl

end Zbacs.Lib
