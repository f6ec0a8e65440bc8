import Zbacs.Lib.Crypto

namespace Zbacs.Lib.Cbor

-- The initial byte: a major type and five bits of argument or argument width.
def initial (major info : Nat) : UInt8 := UInt8.ofNat (32 * major + info)

theorem initial_toNat {major info : Nat} (hm : major < 8) (hi : info < 32) :
    (initial major info).toNat / 32 = major ∧ (initial major info).toNat % 32 = info := by
  simp only [initial, UInt8.toNat_ofNat']
  omega

-- The head of an item, with its argument in the shortest form.
def head (major n : Nat) : Bytes :=
  if n < 24 then [initial major n]
  else if n < 2 ^ 8 then initial major 24 :: beBytes 1 n
  else if n < 2 ^ 16 then initial major 25 :: beBytes 2 n
  else if n < 2 ^ 32 then initial major 26 :: beBytes 4 n
  else initial major 27 :: beBytes 8 n

def readArg (major width : Nat) (rest : Bytes) : Option (Nat × Nat × Bytes) :=
  if rest.length < width then none else some (major, beNat (rest.take width), rest.drop width)

def readHead : Bytes → Option (Nat × Nat × Bytes)
  | [] => none
  | b :: rest =>
      let major := b.toNat / 32
      let info := b.toNat % 32
      if info < 24 then some (major, info, rest)
      else if info = 24 then readArg major 1 rest
      else if info = 25 then readArg major 2 rest
      else if info = 26 then readArg major 4 rest
      else if info = 27 then readArg major 8 rest
      else none

theorem length_head_le (major n : Nat) : (head major n).length ≤ 9 := by
  unfold head
  split_ifs <;> simp

-- A head starts with its major type, whatever the argument.
theorem head_eq_cons {major : Nat} (hm : major < 8) (n : Nat) :
    ∃ b rest, head major n = b :: rest ∧ b.toNat / 32 = major := by
  unfold head
  split_ifs with h
  · exact ⟨_, _, rfl, (initial_toNat hm (by omega)).1⟩
  all_goals exact ⟨_, _, rfl, (initial_toNat hm (by decide)).1⟩

theorem readArg_beBytes {major width n : Nat} (rest : Bytes) (h : n < 256 ^ width) :
    readArg major width (beBytes width n ++ rest) = some (major, n, rest) := by
  have hlen : ¬(beBytes width n ++ rest).length < width := by simp
  rw [readArg, if_neg hlen, List.take_left' (by simp), List.drop_left' (by simp), beNat_beBytes h]

theorem readHead_head {major n : Nat} (hm : major < 8) (hn : n < 2 ^ 64) (rest : Bytes) :
    readHead (head major n ++ rest) = some (major, n, rest) := by
  unfold head
  split_ifs with h₁ h₂ h₃ h₄
  · obtain ⟨hmaj, hinfo⟩ := initial_toNat hm (show n < 32 by omega)
    simp [readHead, hmaj, hinfo, h₁]
  · obtain ⟨hmaj, hinfo⟩ := initial_toNat hm (show 24 < 32 by decide)
    simp [readHead, hmaj, hinfo, readArg_beBytes rest (show n < 256 ^ 1 by omega)]
  · obtain ⟨hmaj, hinfo⟩ := initial_toNat hm (show 25 < 32 by decide)
    simp [readHead, hmaj, hinfo, readArg_beBytes rest (show n < 256 ^ 2 by omega)]
  · obtain ⟨hmaj, hinfo⟩ := initial_toNat hm (show 26 < 32 by decide)
    simp [readHead, hmaj, hinfo, readArg_beBytes rest (show n < 256 ^ 4 by omega)]
  · obtain ⟨hmaj, hinfo⟩ := initial_toNat hm (show 27 < 32 by decide)
    simp [readHead, hmaj, hinfo, readArg_beBytes rest (show n < 256 ^ 8 by omega)]

-- A writer, a parser of prefixes that undoes it, and a bound on what it writes.
-- Lengths are 64-bit, so the parser is only asked about what stays below that.
structure Wire (α : Type) where
  put : α → Bytes
  get : Bytes → Option (α × Bytes)
  size : α → Nat
  length_put : ∀ a, (put a).length ≤ size a
  get_put : ∀ a rest, size a < 2 ^ 64 → get (put a ++ rest) = some (a, rest)

namespace Wire

variable {α β : Type}

-- Strings of bytes and of text differ in the major type only.
def string (major : Nat) (hm : major < 8) : Wire Bytes where
  put b := head major b.length ++ b
  get input := do
    let (m, n, rest) ← readHead input
    if m = major ∧ n ≤ rest.length then some (rest.take n, rest.drop n) else none
  size b := 9 + b.length
  length_put b := by
    have := length_head_le major b.length
    simp only [List.length_append]
    omega
  get_put b rest h := by
    rw [List.append_assoc, readHead_head hm (by omega)]
    simp

def bytes : Wire Bytes := string 2 (by decide)

def uint : Wire UInt64 where
  put n := head 0 n.toNat
  get input := do
    let (m, n, rest) ← readHead input
    if m = 0 then some (UInt64.ofNat n, rest) else none
  size _ := 9
  length_put n := length_head_le 0 n.toNat
  get_put n rest _ := by
    rw [readHead_head (by decide) n.toNat_lt]
    simp

-- A value in another representation; reading may refuse.
def refine (w : Wire α) (pack : α → Option β) (unpack : β → α)
    (h : ∀ b, pack (unpack b) = some b) : Wire β where
  put b := w.put (unpack b)
  get input := do
    let (a, rest) ← w.get input
    let b ← pack a
    some (b, rest)
  size b := w.size (unpack b)
  length_put b := w.length_put (unpack b)
  get_put b rest hs := by
    simp [w.get_put (unpack b) rest hs, h]

def iso (w : Wire α) (pack : α → β) (unpack : β → α) (h : ∀ b, pack (unpack b) = b) : Wire β :=
  w.refine (fun a => some (pack a)) unpack fun b => by rw [h]

def pair (v : Wire α) (w : Wire β) : Wire (α × β) where
  put p := v.put p.1 ++ w.put p.2
  get input := do
    let (a, rest) ← v.get input
    let (b, rest) ← w.get rest
    some ((a, b), rest)
  size p := v.size p.1 + w.size p.2
  length_put p := by
    have := v.length_put p.1
    have := w.length_put p.2
    simp only [List.length_append]
    omega
  get_put p rest h := by
    rw [List.append_assoc, v.get_put _ _ (by omega)]
    simp [w.get_put p.2 rest (by omega)]

-- A fixed byte string that has to come next.
def strip (mark input : Bytes) : Option Bytes :=
  if input.take mark.length = mark then some (input.drop mark.length) else none

@[simp] theorem strip_append (mark rest : Bytes) : strip mark (mark ++ rest) = some rest := by
  simp [strip]

-- The same value between two fixed byte strings.
def around (front back : Bytes) (w : Wire α) : Wire α where
  put a := front ++ w.put a ++ back
  get input := do
    let input ← strip front input
    let (a, rest) ← w.get input
    let rest ← strip back rest
    some (a, rest)
  size a := front.length + w.size a + back.length
  length_put a := by
    have := w.length_put a
    simp only [List.length_append]
    omega
  get_put a rest h := by
    rw [List.append_assoc, List.append_assoc, strip_append]
    simp [w.get_put a (back ++ rest) (by omega)]

-- A map entry: the key, then the value.
def field (key : Bytes) (w : Wire α) : Wire α := w.around (head 3 key.length ++ key) []

@[simp] theorem size_string (major : Nat) (hm : major < 8) (b : Bytes) :
    (string major hm).size b = 9 + b.length := rfl

@[simp] theorem size_bytes (b : Bytes) : bytes.size b = 9 + b.length := rfl

@[simp] theorem size_uint (n : UInt64) : uint.size n = 9 := rfl

@[simp] theorem size_refine (w : Wire α) (pack : α → Option β) (unpack : β → α)
    (h : ∀ b, pack (unpack b) = some b) (b : β) :
    (w.refine pack unpack h).size b = w.size (unpack b) := rfl

@[simp] theorem size_iso (w : Wire α) (pack : α → β) (unpack : β → α)
    (h : ∀ b, pack (unpack b) = b) (b : β) : (w.iso pack unpack h).size b = w.size (unpack b) := rfl

@[simp] theorem size_pair (v : Wire α) (w : Wire β) (p : α × β) :
    (v.pair w).size p = v.size p.1 + w.size p.2 := rfl

@[simp] theorem size_around (front back : Bytes) (w : Wire α) (a : α) :
    (w.around front back).size a = front.length + w.size a + back.length := rfl

-- The head of a short key is one byte.
theorem size_field (key : Bytes) (h : key.length < 24) (w : Wire α) (a : α) :
    (w.field key).size a = 1 + key.length + w.size a := by
  simp [field, head, h]
  omega

def bool : Wire Bool where
  put b := [if b then 0xf5 else 0xf4]
  get
    | 0xf4 :: rest => some (false, rest)
    | 0xf5 :: rest => some (true, rest)
    | _ => none
  size _ := 1
  length_put _ := by simp
  get_put b rest _ := by cases b <;> rfl

-- Whatever is written starts with a byte other than `mark`.
def Avoids (w : Wire α) (mark : UInt8) : Prop := ∀ a, ∃ b rest, w.put a = b :: rest ∧ b ≠ mark

theorem Avoids.head?_ne {w : Wire α} {mark : UInt8} (h : w.Avoids mark) (a : α) (rest : Bytes) :
    (w.put a ++ rest).head? ≠ some mark := by
  obtain ⟨b, more, hput, hne⟩ := h a
  rw [hput, List.cons_append, List.head?_cons]
  exact fun he => hne (Option.some.inj he)

-- Null, or a value that does not look like it.
def nullable (w : Wire α) (h : w.Avoids 0xf6) : Wire (Option α) where
  put
    | none => [0xf6]
    | some a => w.put a
  get input :=
    if input.head? = some 0xf6 then some (none, input.tail)
    else (w.get input).map fun p => (some p.1, p.2)
  size
    | none => 1
    | some a => w.size a
  length_put
    | none => by simp
    | some a => w.length_put a
  get_put
    | none, rest, _ => by simp
    | some a, rest, hs => by
        simp only
        rw [if_neg (h.head?_ne a rest), w.get_put a rest hs]
        rfl

-- An entry that may be missing, before one that starts with another byte.
def optional (mark : UInt8) (key : Bytes) (v : Wire α) (w : Wire β)
    (h : w.Avoids mark) : Wire (Option α × β) where
  put
    | (none, b) => w.put b
    | (some a, b) => ((v.around (mark :: key) []).pair w).put (a, b)
  get input :=
    if input.head? = some mark then
      (((v.around (mark :: key) []).pair w).get input).map fun p => ((some p.1.1, p.1.2), p.2)
    else (w.get input).map fun p => ((none, p.1), p.2)
  size
    | (none, b) => w.size b
    | (some a, b) => ((v.around (mark :: key) []).pair w).size (a, b)
  length_put
    | (none, b) => w.length_put b
    | (some a, b) => ((v.around (mark :: key) []).pair w).length_put (a, b)
  get_put
    | (none, b), rest, hs => by
        simp only
        rw [if_neg (h.head?_ne b rest), w.get_put b rest hs]
        rfl
    | (some a, b), rest, hs => by
        have hhead : (((v.around (mark :: key) []).pair w).put (a, b) ++ rest).head? =
            some mark := rfl
        simp only
        rw [if_pos hhead, ((v.around (mark :: key) []).pair w).get_put (a, b) rest hs]
        rfl

def getMany (w : Wire α) : Nat → Bytes → Option (List α × Bytes)
  | 0, input => some ([], input)
  | count + 1, input => do
      let (a, rest) ← w.get input
      let (as, rest) ← getMany w count rest
      some (a :: as, rest)

theorem getMany_flatMap (w : Wire α) (as : List α) (rest : Bytes)
    (h : (as.map w.size).sum < 2 ^ 64) :
    getMany w as.length (as.flatMap w.put ++ rest) = some (as, rest) := by
  induction as with
  | nil => rfl
  | cons a as ih =>
      rw [List.map_cons, List.sum_cons] at h
      rw [List.flatMap_cons, List.append_assoc, List.length_cons, getMany,
        w.get_put _ _ (by omega)]
      simp [ih (by omega)]

theorem length_flatMap_put_le (w : Wire α) (as : List α) :
    (as.flatMap w.put).length ≤ (as.map w.size).sum := by
  induction as with
  | nil => simp
  | cons a as ih =>
      have := w.length_put a
      rw [List.flatMap_cons, List.length_append, List.map_cons, List.sum_cons]
      omega

-- An array of items.
def array (w : Wire α) : Wire (List α) where
  put as := head 4 as.length ++ as.flatMap w.put
  get input := do
    let (m, n, rest) ← readHead input
    if m = 4 then getMany w n rest else none
  size as := 9 + as.length + (as.map w.size).sum
  length_put as := by
    have := length_head_le 4 as.length
    have := length_flatMap_put_le w as
    simp only [List.length_append]
    omega
  get_put as rest h := by
    rw [List.append_assoc, readHead_head (by decide) (by omega)]
    simp [getMany_flatMap w as rest (by omega)]

def fixed (n : Nat) : Wire (FixedBytes n) :=
  bytes.refine (FixedBytes.ofBytes? n) FixedBytes.bytes FixedBytes.ofBytes?_bytes

theorem string_avoids_null {major : Nat} (hm : major < 8) (hne : major ≠ 7) :
    (string major hm).Avoids 0xf6 := by
  intro b
  obtain ⟨c, rest, hhead, hmajor⟩ := head_eq_cons hm b.length
  refine ⟨c, rest ++ b, ?_, ?_⟩
  · rw [← List.cons_append, ← hhead]
    rfl
  · rintro rfl
    exact hne (hmajor.symm.trans (by decide))

theorem bytes_avoids_null : bytes.Avoids 0xf6 := string_avoids_null _ (by decide)

theorem fixed_avoids_null (n : Nat) : (fixed n).Avoids 0xf6 := fun b => bytes_avoids_null b.bytes

@[simp] theorem size_nullable (w : Wire α) (h : w.Avoids 0xf6) (a : Option α) :
    (w.nullable h).size a = a.elim 1 w.size := by
  cases a <;> rfl

@[simp] theorem size_bool (b : Bool) : bool.size b = 1 := rfl

@[simp] theorem size_array (w : Wire α) (as : List α) :
    w.array.size as = 9 + as.length + (as.map w.size).sum := rfl

theorem size_optional_le (mark : UInt8) (key : Bytes) (v : Wire α) (w : Wire β)
    (h : w.Avoids mark) (a : Option α) (b : β) : (optional mark key v w h).size (a, b) ≤
      1 + key.length + a.elim 0 v.size + w.size b := by
  cases a with
  | none =>
      simp only [optional]
      omega
  | some a => simp [optional, Nat.add_comm]

@[simp] theorem size_fixed {n : Nat} (b : FixedBytes n) : (fixed n).size b = 9 + n := by
  simp [fixed]

-- The first item of an input is read, and nothing longer than 64-bit lengths is
-- written.
def codec (w : Wire α) : Codec α where
  encode a := if w.size a < 2 ^ 64 then .ok (w.put a) else .error "length"
  decode input := match w.get input with
    | none => .error "invalid"
    | some (a, _) => .ok a

theorem encode_put (w : Wire α) {a : α} (h : w.size a < 2 ^ 64) : w.codec.encode a = .ok (w.put a) := by
  simp only [codec, if_pos h]

theorem codec_readsFirst (w : Wire α) : w.codec.ReadsFirst := by
  intro a b more h
  unfold codec at h
  simp only at h
  split_ifs at h with hs
  cases h
  simp only [codec, w.get_put a more hs]

theorem codec_roundTrips (w : Wire α) : w.codec.RoundTrips :=
  Codec.ReadsFirst.roundTrips w.codec_readsFirst

theorem decode_put (w : Wire α) (a : α) (h : w.size a < 2 ^ 64) :
    w.codec.decode (w.put a) = .ok a :=
  w.codec_roundTrips (w.encode_put h)

theorem codec_bounded (w : Wire α) {bound : α → Nat} {limit : Nat} (hlimit : limit < 2 ^ 64)
    (hsize : ∀ a, w.size a ≤ bound a) : w.codec.Bounded bound limit := by
  intro a ha
  have := hsize a
  refine ⟨w.put a, ?_, (w.length_put a).trans this⟩
  simp only [codec]
  rw [if_pos (by omega)]

end Wire

end Zbacs.Lib.Cbor
