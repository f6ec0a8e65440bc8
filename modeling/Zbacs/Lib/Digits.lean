import Zbacs.Lib.Bytes

namespace Zbacs.Lib

-- Arithmetic on numbers of a fixed length in network byte order, byte by byte.

namespace Digits

-- From the high end: the first difference decides.
def greater : Bytes → Bytes → Bool
  | a :: as, b :: bs => if b < a then true else if a < b then false else greater as bs
  | _, _ => false

-- From the low end: the difference, and whether one is borrowed from beyond the high end.
def subtract : Bytes → Bytes → Bytes × Bool
  | a :: as, b :: bs =>
    let (rest, borrow) := subtract as bs
    let d : Int := a.toNat - b.toNat - borrow.toNat
    if d < 0 then (.ofNat (d + 256).toNat :: rest, true) else (.ofNat d.toNat :: rest, false)
  | _, _ => ([], false)

-- From the high end: a bit shifted out of one byte goes into the next.
def halve : (carry : UInt8) → Bytes → Bytes
  | _, [] => []
  | carry, b :: rest => (b >>> 1 ||| carry <<< 7) :: halve (b &&& 1) rest

section

variable {as bs : Bytes}

theorem leNat_append (xs ys : Bytes) : leNat (xs ++ ys) = leNat xs + 256 ^ xs.length * leNat ys := by
  induction xs with
  | nil => simp [leNat]
  | cons x xs ih =>
      rw [List.cons_append, leNat, leNat, ih, List.length_cons, pow_succ]
      ring

theorem beNat_cons (a : UInt8) (as : Bytes) : beNat (a :: as) = a.toNat * 256 ^ as.length + beNat as := by
  rw [beNat, List.reverse_cons, leNat_append, List.length_reverse, beNat, leNat, leNat]
  ring

theorem beNat_nil : beNat [] = 0 := rfl

theorem eq_of_beNat {n : Nat} {a b : FixedBytes n} (h : beNat a.bytes = beNat b.bytes) : a = b := by
  have ha := beBytes_beNat a.bytes
  have hb := beBytes_beNat b.bytes
  rw [a.length_bytes] at ha
  rw [b.length_bytes] at hb
  apply FixedBytes.ext
  rw [← ha, ← hb, h]

theorem greater_iff (h : as.length = bs.length) : greater as bs = true ↔ beNat bs < beNat as := by
  induction as generalizing bs with
  | nil =>
      obtain rfl := List.length_eq_zero_iff.mp h.symm
      simp [greater]
  | cons a as ih =>
      cases bs with
      | nil => cases h
      | cons b bs =>
          have hlen : as.length = bs.length := Nat.succ.inj h
          have ha := beNat_lt as
          have hb := beNat_lt bs
          rw [beNat_cons, beNat_cons, ← hlen]
          rw [← hlen] at hb
          generalize 256 ^ as.length = weight at ha hb
          rw [greater]
          split_ifs with hlt hgt
          · -- a whole weight makes up for all the lower bytes
            have hstep : (b.toNat + 1) * weight ≤ a.toNat * weight :=
              Nat.mul_le_mul_right _ (UInt8.lt_iff_toNat_lt.mp hlt)
            rw [Nat.add_mul, Nat.one_mul] at hstep
            exact iff_of_true rfl (by omega)
          · have hstep : (a.toNat + 1) * weight ≤ b.toNat * weight :=
              Nat.mul_le_mul_right _ (UInt8.lt_iff_toNat_lt.mp hgt)
            rw [Nat.add_mul, Nat.one_mul] at hstep
            exact iff_of_false (by simp) (by omega)
          · have hsame : a.toNat = b.toNat :=
              Nat.le_antisymm (Nat.not_lt.mp fun h => hlt (UInt8.lt_iff_toNat_lt.mpr h))
                (Nat.not_lt.mp fun h => hgt (UInt8.lt_iff_toNat_lt.mpr h))
            rw [ih hlen, hsame]
            omega

theorem length_subtract (h : as.length = bs.length) : (subtract as bs).1.length = as.length := by
  induction as generalizing bs with
  | nil => rfl
  | cons a as ih =>
      cases bs with
      | nil => cases h
      | cons b bs =>
          have hrest := ih (Nat.succ.inj h)
          rw [subtract]
          dsimp only
          split_ifs <;> rw [List.length_cons, List.length_cons, hrest]

-- What was borrowed is one unit beyond the high end.
theorem beNat_subtract (h : as.length = bs.length) :
    beNat (subtract as bs).1 + beNat bs = beNat as + (subtract as bs).2.toNat * 256 ^ as.length := by
  induction as generalizing bs with
  | nil =>
      obtain rfl := List.length_eq_zero_iff.mp h.symm
      rfl
  | cons a as ih =>
      cases bs with
      | nil => cases h
      | cons b bs =>
          have hlen : as.length = bs.length := Nat.succ.inj h
          have hrest := ih hlen
          have hlength := length_subtract hlen
          rw [subtract]
          generalize subtract as bs = low at hrest hlength
          obtain ⟨rest, borrow⟩ := low
          dsimp only at hrest hlength ⊢
          have ha := a.toNat_lt
          have hb := b.toNat_lt
          have hborrow : borrow.toNat ≤ 1 := Bool.toNat_le borrow
          have hout : ∀ digit : UInt8, beNat (digit :: rest) = digit.toNat * 256 ^ as.length + beNat rest :=
            fun digit => by rw [beNat_cons, hlength]
          rw [beNat_cons, beNat_cons, List.length_cons, pow_succ, ← hlen]
          generalize 256 ^ as.length = weight at hrest hout ⊢
          -- the digits balance, and so do they with their weight
          have hbalance : ∀ (digit : UInt8) (next : Bool),
              digit.toNat + b.toNat + borrow.toNat = a.toNat + 256 * next.toNat →
              beNat (digit :: rest) + (b.toNat * weight + beNat bs) =
                a.toNat * weight + beNat as + next.toNat * (weight * 256) := by
            intro digit next hdigit
            have hweighted := congrArg (· * weight) hdigit
            simp only [Nat.add_mul] at hweighted
            rw [hout, ← Nat.mul_assoc, Nat.mul_right_comm, Nat.mul_comm _ 256]
            omega
          split_ifs with hneg
          · refine hbalance _ true ?_
            rw [UInt8.toNat_ofNat', Nat.mod_eq_of_lt (by omega)]
            rw [Bool.toNat_true]
            omega
          · refine hbalance _ false ?_
            rw [UInt8.toNat_ofNat', Nat.mod_eq_of_lt (by omega)]
            rw [Bool.toNat_false]
            omega

theorem length_halve (carry : UInt8) (bs : Bytes) : (halve carry bs).length = bs.length := by
  induction bs generalizing carry with
  | nil => rfl
  | cons b bs ih => rw [halve, List.length_cons, List.length_cons, ih]

-- One byte of it: half of what comes in, with what comes from above in the highest bit.
theorem toNat_halved {carry : UInt8} (hcarry : carry.toNat ≤ 1) (b : UInt8) :
    (b >>> 1 ||| carry <<< 7).toNat = (carry.toNat * 256 + b.toNat) / 2 ∧ (b &&& 1).toNat = b.toNat % 2 := by
  have hall : (List.range 256).all (fun n =>
      (UInt8.ofNat n >>> 1 ||| (0 : UInt8) <<< 7).toNat = n / 2 ∧
        (UInt8.ofNat n >>> 1 ||| (1 : UInt8) <<< 7).toNat = 128 + n / 2 ∧
        (UInt8.ofNat n &&& 1).toNat = n % 2) = true := by decide +kernel
  have hb := of_decide_eq_true (List.all_eq_true.mp hall b.toNat (List.mem_range.mpr b.toNat_lt))
  rw [UInt8.ofNat_toNat] at hb
  refine ⟨?_, hb.2.2⟩
  have hbit : carry = 0 ∨ carry = 1 := by
    rw [← UInt8.toNat_inj, ← UInt8.toNat_inj, UInt8.toNat_zero, UInt8.toNat_one]
    omega
  rcases hbit with rfl | rfl
  · rw [hb.1, UInt8.toNat_zero]
    omega
  · rw [hb.2.1, UInt8.toNat_one]
    omega

theorem beNat_halve {carry : UInt8} (hcarry : carry.toNat ≤ 1) :
    beNat (halve carry bs) = (carry.toNat * 256 ^ bs.length + beNat bs) / 2 := by
  induction bs generalizing carry with
  | nil =>
      rw [halve, beNat_nil, List.length_nil, pow_zero]
      omega
  | cons b rest ih =>
      obtain ⟨hbyte, hbit⟩ := toNat_halved hcarry b
      have hrest := @ih (b &&& 1) (by omega)
      rw [halve, beNat_cons, hbyte, length_halve, hrest, hbit, List.length_cons, beNat_cons, pow_succ]
      generalize 256 ^ rest.length = weight
      have hsplit : carry.toNat * (weight * 256) + (b.toNat * weight + beNat rest) =
          2 * ((carry.toNat * 256 + b.toNat) / 2 * weight) + (b.toNat % 2 * weight + beNat rest) := by
        have hparts : carry.toNat * 256 + b.toNat = 2 * ((carry.toNat * 256 + b.toNat) / 2) + b.toNat % 2 := by
          omega
        have hweighted := congrArg (· * weight) hparts
        simp only [Nat.add_mul, Nat.mul_assoc] at hweighted
        rw [Nat.mul_comm weight 256]
        omega
      rw [hsplit, Nat.mul_add_div Nat.two_pos]

end

end Digits

end Zbacs.Lib
