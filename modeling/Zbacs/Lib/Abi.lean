import Zbacs.Lib.Bytes

namespace Zbacs.Lib.Abi

-- The contract ABI. Values are laid out in words of 32 bytes; what has no fixed length follows
-- after all the words, and a word says where.

-- The arguments of a call: the name of their types, their words once it is known where what
-- follows begins, what follows, and a reader that finds them again.
structure Args (α : Type) where
  name : String
  headLen : Nat
  head : Nat → α → Bytes
  tail : α → Bytes
  get : Bytes → Bytes → Option α
  length_head : ∀ offset a, (head offset a).length = headLen
  get_head : ∀ offset a whole rest, whole.drop offset = tail a ++ rest →
    offset + (tail a).length < 2 ^ 64 → get whole (head offset a) = some a

namespace Args

variable {α β : Type}

-- Numbers stand at the right of their word. A reader refuses what the type cannot hold.
def uint (w : Nat) (h : w ≤ 256) : Args (BitVec w) where
  name := "uint" ++ toString w
  headLen := 32
  head _ v := beBytes 32 v.toNat
  tail _ := []
  get _ word := if beNat word < 2 ^ w then some (BitVec.ofNat w (beNat word)) else none
  length_head _ v := length_beBytes 32 v.toNat
  get_head offset v whole rest _ _ := by
    have hv : v.toNat < 256 ^ 32 :=
      lt_of_lt_of_le v.isLt (pow_le_pow_right₀ (by decide) h : 2 ^ w ≤ 2 ^ 256)
    rw [beNat_beBytes hv, if_pos v.isLt, BitVec.ofNat_toNat, BitVec.setWidth_eq]

-- Short byte strings stand at the left of theirs.
def fixed (n : Nat) (h : n ≤ 32) : Args (FixedBytes n) where
  name := "bytes" ++ toString n
  headLen := 32
  head _ b := b.bytes ++ List.replicate (32 - n) 0
  tail _ := []
  get _ word := if word.drop n = List.replicate (32 - n) 0 then FixedBytes.ofBytes? n (word.take n)
    else none
  length_head _ b := by
    rw [List.length_append, b.length_bytes, List.length_replicate]
    omega
  get_head offset b whole rest _ _ := by
    rw [List.drop_left' b.length_bytes, if_pos rfl, List.take_left' b.length_bytes,
      FixedBytes.ofBytes?_bytes]

-- An address is a number of 160 bits.
def address : Args (FixedBytes 20) where
  name := "address"
  headLen := 32
  head _ b := List.replicate 12 0 ++ b.bytes
  tail _ := []
  get _ word := if word.take 12 = List.replicate 12 0 then FixedBytes.ofBytes? 20 (word.drop 12)
    else none
  length_head _ b := by
    rw [List.length_append, b.length_bytes, List.length_replicate]
  get_head offset b whole rest _ _ := by
    have hzeros : (List.replicate 12 (0 : UInt8)).length = 12 := List.length_replicate ..
    rw [List.take_left' hzeros, if_pos rfl, List.drop_left' hzeros, FixedBytes.ofBytes?_bytes]

-- Zeros that fill up the last word.
def padding (length : Nat) : Bytes := List.replicate ((32 - length % 32) % 32) 0

def bytes : Args Bytes where
  name := "bytes"
  headLen := 32
  head offset _ := beBytes 32 offset
  tail b := beBytes 32 b.length ++ (b ++ padding b.length)
  get whole word :=
    let found := whole.drop (beNat word)
    let length := beNat (found.take 32)
    let data := found.drop 32
    if beNat word < 2 ^ 64 ∧ 32 ≤ found.length ∧ length < 2 ^ 64 ∧ length ≤ data.length then
      some (data.take length)
    else none
  length_head offset _ := length_beBytes 32 offset
  get_head offset b whole rest hwhole hsize := by
    have hlen : (beBytes 32 b.length).length = 32 := length_beBytes 32 b.length
    simp only [List.length_append, hlen] at hsize
    have hoffset : beNat (beBytes 32 offset) = offset := beNat_beBytes (by omega)
    have hlength : beNat (beBytes 32 b.length) = b.length := beNat_beBytes (by omega)
    dsimp only
    rw [hoffset, hwhole, List.append_assoc, List.take_left' hlen, List.drop_left' hlen, hlength,
      List.append_assoc, List.take_left' rfl]
    refine if_pos ⟨by omega, ?_, by omega, ?_⟩
    · rw [List.length_append, hlen]
      omega
    · rw [List.length_append]
      omega

-- A value in another representation.
def iso (p : Args α) (pack : α → β) (unpack : β → α) (h : ∀ b, pack (unpack b) = b) : Args β where
  name := p.name
  headLen := p.headLen
  head offset b := p.head offset (unpack b)
  tail b := p.tail (unpack b)
  get whole word := (p.get whole word).map pack
  length_head offset b := p.length_head offset (unpack b)
  get_head offset b whole rest hwhole hsize := by
    rw [p.get_head offset (unpack b) whole rest hwhole hsize, Option.map_some, h]

def pair (p : Args α) (q : Args β) : Args (α × β) where
  name := p.name ++ "," ++ q.name
  headLen := p.headLen + q.headLen
  head offset v := p.head offset v.1 ++ q.head (offset + (p.tail v.1).length) v.2
  tail v := p.tail v.1 ++ q.tail v.2
  get whole words := do
    let a ← p.get whole (words.take p.headLen)
    let b ← q.get whole (words.drop p.headLen)
    some (a, b)
  length_head offset v := by
    rw [List.length_append, p.length_head, q.length_head]
  get_head offset v whole rest hwhole hsize := by
    have hlen := p.length_head offset v.1
    have hnext : whole.drop (offset + (p.tail v.1).length) = q.tail v.2 ++ rest := by
      rw [← List.drop_drop, hwhole, List.append_assoc, List.drop_left' rfl]
    rw [List.length_append] at hsize
    rw [List.append_assoc] at hwhole
    rw [List.take_left' hlen, List.drop_left' hlen, p.get_head offset v.1 whole _ hwhole (by omega),
      q.get_head _ v.2 whole rest hnext (by omega)]
    rfl

-- A struct of words is laid out as its fields are.
def struct (p : Args α) (_ : ∀ a, p.tail a = []) : Args α := { p with name := "(" ++ p.name ++ ")" }

-- `abi.encode`
def encode (p : Args α) (a : α) : Bytes := p.head p.headLen a ++ p.tail a

-- `abi.decode`
def decode (p : Args α) (b : Bytes) : Option α :=
  if p.headLen ≤ b.length then p.get b (b.take p.headLen) else none

section Encode

variable (p : Args α) {a b : α}

theorem length_encode : (p.encode a).length = p.headLen + (p.tail a).length := by
  rw [encode, List.length_append, p.length_head]

theorem decode_encode (h : (p.encode a).length < 2 ^ 64) : p.decode (p.encode a) = some a := by
  have hlen := p.length_head p.headLen a
  rw [p.length_encode] at h
  rw [decode, if_pos (by rw [p.length_encode]; omega)]
  have htail : (p.encode a).drop p.headLen = p.tail a ++ [] := by
    rw [encode, List.drop_left' hlen, List.append_nil]
  have hhead : (p.encode a).take p.headLen = p.head p.headLen a := by
    rw [encode, List.take_left' hlen]
  rw [hhead, p.get_head _ a _ [] htail h]

theorem encode_inj (ha : (p.encode a).length < 2 ^ 64) (h : p.encode a = p.encode b) : a = b := by
  have hb := p.decode_encode (h ▸ ha)
  rw [← h, p.decode_encode ha] at hb
  exact Option.some.inj hb

end Encode

end Args

-- Calls of a contract's functions.

section Calls

variable {α : Type} (hash : Bytes → FixedBytes 32) (function : String) (p : Args α)

-- The name of a function with the types of its arguments.
def signature : String := function ++ "(" ++ p.name ++ ")"

def selector (signature : String) : Bytes := (hash signature.toUTF8.data.toList).bytes.take 4

def callData (a : α) : Bytes := selector hash (signature function p) ++ p.encode a

-- What the function is called with, if it is this one.
def readCall (data : Bytes) : Option α :=
  if data.take 4 = selector hash (signature function p) then p.decode (data.drop 4) else none

theorem length_selector (signature : String) : (selector hash signature).length = 4 := by
  rw [selector, List.length_take, FixedBytes.length_bytes]
  rfl

theorem readCall_callData {a : α} (h : (p.encode a).length < 2 ^ 64) :
    readCall hash function p (callData hash function p a) = some a := by
  have hlen := length_selector hash (signature function p)
  rw [readCall, callData, List.take_left' hlen, if_pos rfl, List.drop_left' hlen, p.decode_encode h]

end Calls

end Zbacs.Lib.Abi
