import Mathlib.Tactic.IntervalCases
import Zbacs.Lib.Bytes

namespace Zbacs.Lib

-- Hexadecimal text, two digits a byte.

def hexDigit (n : Nat) : Char := "0123456789abcdef".toList.getD n '0'

def hexValue (c : Char) : Option Nat :=
  if '0' ≤ c ∧ c ≤ '9' then some (c.toNat - '0'.toNat)
  else if 'a' ≤ c ∧ c ≤ 'f' then some (c.toNat - 'a'.toNat + 10)
  else if 'A' ≤ c ∧ c ≤ 'F' then some (c.toNat - 'A'.toNat + 10)
  else none

def hexChars (b : Bytes) : List Char :=
  b.flatMap fun x => [hexDigit (x.toNat / 16), hexDigit (x.toNat % 16)]

def hexEncode (b : Bytes) : String := String.ofList (hexChars b)

def hexBytes? : List Char → Option Bytes
  | [] => some []
  | [_] => none
  | hi :: lo :: rest => do
    let h ← hexValue hi
    let l ← hexValue lo
    let b ← hexBytes? rest
    return UInt8.ofNat (16 * h + l) :: b

def hexDecode (s : String) : Option Bytes := hexBytes? s.toList

-- Into a buffer of this size, and of no other.
def hexDecodeTo (n : Nat) (s : String) : Option (FixedBytes n) := (hexDecode s).bind (FixedBytes.ofBytes? n)

theorem hexValue_hexDigit {n : Nat} (h : n < 16) : hexValue (hexDigit n) = some n := by
  interval_cases n <;> rfl

theorem hexBytes?_hexChars (b : Bytes) : hexBytes? (hexChars b) = some b := by
  induction b with
  | nil => rfl
  | cons x b ih =>
      have hx := x.toNat_lt
      have hbyte : UInt8.ofNat (16 * (x.toNat / 16) + x.toNat % 16) = x := by
        rw [Nat.div_add_mod, UInt8.ofNat_toNat]
      rw [hexChars, List.flatMap_cons, ← hexChars]
      simp only [List.cons_append, List.nil_append, hexBytes?,
        hexValue_hexDigit (show x.toNat / 16 < 16 by omega),
        hexValue_hexDigit (show x.toNat % 16 < 16 by omega), ih, hbyte, Option.bind_eq_bind,
        Option.bind_some, Option.pure_def]

@[simp] theorem hexDecode_hexEncode (b : Bytes) : hexDecode (hexEncode b) = some b := by
  rw [hexDecode, hexEncode, String.toList_ofList, hexBytes?_hexChars]

@[simp] theorem hexDecodeTo_hexEncode {n : Nat} (b : FixedBytes n) :
    hexDecodeTo n (hexEncode b.bytes) = some b := by
  rw [hexDecodeTo, hexDecode_hexEncode, Option.bind_some, FixedBytes.ofBytes?_bytes]

theorem hexEncode_injective : Function.Injective hexEncode := by
  intro b c h
  simpa using congrArg hexDecode h

end Zbacs.Lib
