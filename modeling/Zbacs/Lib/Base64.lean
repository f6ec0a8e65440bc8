import Zbacs.Lib.Bytes

namespace Zbacs.Lib.Base64

-- The alphabet for URLs, without padding. A text whose last digit says more than bytes need is
-- refused, so no two texts stand for the same bytes.

def toDigit (n : Nat) : Char :=
  if n < 26 then Char.ofNat (65 + n)
  else if n < 52 then Char.ofNat (71 + n)
  else if n < 62 then Char.ofNat (n - 4)
  else if n = 62 then '-' else '_'

def ofDigit (c : Char) : Option Nat :=
  let n := c.toNat
  if 65 ≤ n ∧ n ≤ 90 then some (n - 65)
  else if 97 ≤ n ∧ n ≤ 122 then some (n - 71)
  else if 48 ≤ n ∧ n ≤ 57 then some (n + 4)
  else if n = 45 then some 62
  else if n = 95 then some 63
  else none

-- Three bytes are four digits of six bits.
def encode : Bytes → List Char
  | [] => []
  | [a] => [toDigit (a.toNat / 4), toDigit (a.toNat % 4 * 16)]
  | [a, b] => [toDigit (a.toNat / 4), toDigit (a.toNat % 4 * 16 + b.toNat / 16),
      toDigit (b.toNat % 16 * 4)]
  | a :: b :: c :: rest => toDigit (a.toNat / 4) :: toDigit (a.toNat % 4 * 16 + b.toNat / 16) ::
      toDigit (b.toNat % 16 * 4 + c.toNat / 64) :: toDigit (c.toNat % 64) :: encode rest

def decode : List Char → Option Bytes
  | [] => some []
  | [_] => none
  | [p, q] => do
    let p ← ofDigit p
    let q ← ofDigit q
    if q % 16 = 0 then some [.ofNat (p * 4 + q / 16)] else none
  | [p, q, r] => do
    let p ← ofDigit p
    let q ← ofDigit q
    let r ← ofDigit r
    if r % 4 = 0 then some [.ofNat (p * 4 + q / 16), .ofNat (q % 16 * 16 + r / 4)] else none
  | p :: q :: r :: s :: rest => do
    let p ← ofDigit p
    let q ← ofDigit q
    let r ← ofDigit r
    let s ← ofDigit s
    let bytes ← decode rest
    some (.ofNat (p * 4 + q / 16) :: .ofNat (q % 16 * 16 + r / 4) :: .ofNat (r % 4 * 64 + s) :: bytes)

theorem ofDigit_toDigit : ∀ {n : Nat}, n < 64 → ofDigit (toDigit n) = some n := by
  have hall : ∀ n : Fin 64, ofDigit (toDigit n) = some n.val := by decide
  exact fun {n} h => hall ⟨n, h⟩

theorem toDigit_of_ofDigit {c : Char} {n : Nat} (h : ofDigit c = some n) : n < 64 ∧ toDigit n = c := by
  have hchar : Char.ofNat c.toNat = c := c.ofNat_toNat
  unfold ofDigit at h
  dsimp only at h
  unfold toDigit
  split_ifs at h with h₁ h₂ h₃ h₄ h₅
  · obtain rfl := Option.some.inj h
    rw [if_pos (by omega), Nat.add_sub_cancel' h₁.1, hchar]
    exact ⟨by omega, rfl⟩
  · obtain rfl := Option.some.inj h
    rw [if_neg (by omega), if_pos (by omega), Nat.add_sub_cancel' (by omega), hchar]
    exact ⟨by omega, rfl⟩
  · obtain rfl := Option.some.inj h
    rw [if_neg (by omega), if_neg (by omega), if_pos (by omega), Nat.add_sub_cancel, hchar]
    exact ⟨by omega, rfl⟩
  · obtain rfl := Option.some.inj h
    rw [← hchar, h₄]
    decide
  · obtain rfl := Option.some.inj h
    rw [← hchar, h₅]
    decide

-- A byte that is put together again.
theorem ofNat_eq {a : UInt8} {n : Nat} (h : n = a.toNat) : UInt8.ofNat n = a := by
  rw [h, UInt8.ofNat_toNat]

theorem decode_encode (b : Bytes) : decode (encode b) = some b := by
  induction b using encode.induct with
  | case1 => rfl
  | case2 a =>
      have ha := a.toNat_lt
      have hbyte : UInt8.ofNat (a.toNat / 4 * 4 + a.toNat % 4 * 16 / 16) = a := ofNat_eq (by omega)
      have hend : a.toNat % 4 * 16 % 16 = 0 := by omega
      rw [encode, decode, ofDigit_toDigit (by omega), ofDigit_toDigit (by omega)]
      simp only [Option.bind_eq_bind, Option.bind_some]
      rw [if_pos hend, hbyte]
  | case3 a b =>
      have ha := a.toNat_lt
      have hb := b.toNat_lt
      have hfirst : UInt8.ofNat (a.toNat / 4 * 4 + (a.toNat % 4 * 16 + b.toNat / 16) / 16) = a :=
        ofNat_eq (by omega)
      have hsecond : UInt8.ofNat ((a.toNat % 4 * 16 + b.toNat / 16) % 16 * 16 + b.toNat % 16 * 4 / 4) = b :=
        ofNat_eq (by omega)
      have hend : b.toNat % 16 * 4 % 4 = 0 := by omega
      rw [encode, decode, ofDigit_toDigit (by omega), ofDigit_toDigit (by omega),
        ofDigit_toDigit (by omega)]
      simp only [Option.bind_eq_bind, Option.bind_some]
      rw [if_pos hend, hfirst, hsecond]
  | case4 a b c rest ih =>
      have ha := a.toNat_lt
      have hb := b.toNat_lt
      have hc := c.toNat_lt
      have hfirst : UInt8.ofNat (a.toNat / 4 * 4 + (a.toNat % 4 * 16 + b.toNat / 16) / 16) = a :=
        ofNat_eq (by omega)
      have hsecond : UInt8.ofNat ((a.toNat % 4 * 16 + b.toNat / 16) % 16 * 16 +
          (b.toNat % 16 * 4 + c.toNat / 64) / 4) = b := ofNat_eq (by omega)
      have hthird : UInt8.ofNat ((b.toNat % 16 * 4 + c.toNat / 64) % 4 * 64 + c.toNat % 64) = c :=
        ofNat_eq (by omega)
      rw [encode, decode, ofDigit_toDigit (by omega), ofDigit_toDigit (by omega),
        ofDigit_toDigit (by omega), ofDigit_toDigit (by omega), ih]
      simp only [Option.bind_eq_bind, Option.bind_some]
      rw [hfirst, hsecond, hthird]

-- What is read is what was written.
theorem encode_of_decode {text : List Char} {b : Bytes} (h : decode text = some b) : encode b = text := by
  induction text using decode.induct generalizing b with
  | case1 =>
      obtain rfl := Option.some.inj h
      rfl
  | case2 p => cases h
  | case3 p q =>
      simp only [decode, Option.bind_eq_bind, Option.bind_eq_some_iff] at h
      obtain ⟨m, hm, n, hn, h⟩ := h
      split_ifs at h with hend
      obtain rfl := Option.some.inj h
      obtain ⟨hm64, rfl⟩ := toDigit_of_ofDigit hm
      obtain ⟨hn64, rfl⟩ := toDigit_of_ofDigit hn
      simp only [encode, UInt8.toNat_ofNat']
      have hfirst : (m * 4 + n / 16) % 2 ^ 8 / 4 = m := by omega
      have hsecond : (m * 4 + n / 16) % 2 ^ 8 % 4 * 16 = n := by omega
      rw [hfirst, hsecond]
  | case4 p q r =>
      simp only [decode, Option.bind_eq_bind, Option.bind_eq_some_iff] at h
      obtain ⟨m, hm, n, hn, k, hk, h⟩ := h
      split_ifs at h with hend
      obtain rfl := Option.some.inj h
      obtain ⟨hm64, rfl⟩ := toDigit_of_ofDigit hm
      obtain ⟨hn64, rfl⟩ := toDigit_of_ofDigit hn
      obtain ⟨hk64, rfl⟩ := toDigit_of_ofDigit hk
      simp only [encode, UInt8.toNat_ofNat']
      have hfirst : (m * 4 + n / 16) % 2 ^ 8 / 4 = m := by omega
      have hsecond : (m * 4 + n / 16) % 2 ^ 8 % 4 * 16 + (n % 16 * 16 + k / 4) % 2 ^ 8 / 16 = n := by omega
      have hthird : (n % 16 * 16 + k / 4) % 2 ^ 8 % 16 * 4 = k := by omega
      rw [hfirst, hsecond, hthird]
  | case5 p q r s rest ih =>
      simp only [decode, Option.bind_eq_bind, Option.bind_eq_some_iff] at h
      obtain ⟨m, hm, n, hn, k, hk, l, hl, bytes, hbytes, h⟩ := h
      obtain rfl := Option.some.inj h
      obtain ⟨hm64, rfl⟩ := toDigit_of_ofDigit hm
      obtain ⟨hn64, rfl⟩ := toDigit_of_ofDigit hn
      obtain ⟨hk64, rfl⟩ := toDigit_of_ofDigit hk
      obtain ⟨hl64, rfl⟩ := toDigit_of_ofDigit hl
      simp only [encode, UInt8.toNat_ofNat', ih hbytes]
      have hfirst : (m * 4 + n / 16) % 2 ^ 8 / 4 = m := by omega
      have hsecond : (m * 4 + n / 16) % 2 ^ 8 % 4 * 16 + (n % 16 * 16 + k / 4) % 2 ^ 8 / 16 = n := by omega
      have hthird : (n % 16 * 16 + k / 4) % 2 ^ 8 % 16 * 4 + (k % 4 * 64 + l) % 2 ^ 8 / 64 = k := by omega
      have hfourth : (k % 4 * 64 + l) % 2 ^ 8 % 64 = l := by omega
      rw [hfirst, hsecond, hthird, hfourth]

end Zbacs.Lib.Base64
