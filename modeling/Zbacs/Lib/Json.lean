import Mathlib.Data.List.Basic
import Mathlib.Data.List.TakeWhile
import Mathlib.Tactic.IntervalCases

namespace Zbacs.Lib.Json

-- A notation: a printable text for each value, and a reader of the front of a text that undoes it
-- and does not change its mind when more text follows.
structure Form (α : Type) where
  put : α → List Char
  get : List Char → Option (α × List Char)
  printable : ∀ a, ∀ c ∈ put a, ' ' ≤ c
  get_put : ∀ a rest, get (put a ++ rest) = some (a, rest)
  get_append : ∀ {input a rest} more, get input = some (a, rest) →
    get (input ++ more) = some (a, rest ++ more)

-- No control characters.
def isPrintable (text : List Char) : Bool := text.all fun c => 0x20 ≤ c.toNat

theorem isPrintable_nothing : isPrintable "".toList = true := rfl

theorem le_of_isPrintable {text : List Char} (h : isPrintable text = true) :
    ∀ c ∈ text, ' ' ≤ c := fun c hc =>
  UInt32.le_iff_toNat_le.mpr (of_decide_eq_true (List.all_eq_true.mp h c hc))

namespace Form

variable {α β : Type}

-- A fixed text.
def literal (mark : List Char) (h : isPrintable mark = true) : Form Unit where
  put _ := mark
  get input := if mark <+: input then some ((), input.drop mark.length) else none
  printable _ := le_of_isPrintable h
  get_put _ rest := by simp
  get_append {input _ rest} more hget := by
    split_ifs at hget with hmark
    obtain ⟨tail, rfl⟩ := hmark
    cases hget
    simp

def pair (v : Form α) (w : Form β) : Form (α × β) where
  put p := v.put p.1 ++ w.put p.2
  get input := do
    let (a, rest) ← v.get input
    let (b, rest) ← w.get rest
    some ((a, b), rest)
  printable p c hc := (List.mem_append.mp hc).elim (v.printable p.1 c) (w.printable p.2 c)
  get_put p rest := by
    rw [List.append_assoc, v.get_put]
    simp [w.get_put]
  get_append more hget := by
    simp only [Option.bind_eq_bind, Option.bind_eq_some_iff, Prod.exists, Option.some.injEq] at hget
    obtain ⟨a, mid, hv, b, rest, hw, ⟨⟩⟩ := hget
    simp [v.get_append more hv, w.get_append more hw]

-- A value in another representation; reading may refuse.
def refine (w : Form α) (pack : α → Option β) (unpack : β → α) (h : ∀ b, pack (unpack b) = some b) :
    Form β where
  put b := w.put (unpack b)
  get input := do
    let (a, rest) ← w.get input
    let b ← pack a
    some (b, rest)
  printable b := w.printable (unpack b)
  get_put b rest := by simp [w.get_put, h]
  get_append more hget := by
    simp only [Option.bind_eq_bind, Option.bind_eq_some_iff, Prod.exists, Option.some.injEq] at hget
    obtain ⟨a, rest, hw, b, hpack, ⟨⟩⟩ := hget
    simp [w.get_append more hw, hpack]

-- A value between two fixed texts.
def around (front back : String) (w : Form α) (hfront : isPrintable front.toList = true)
    (hback : isPrintable back.toList = true) : Form α :=
  ((literal front.toList hfront).pair (w.pair (literal back.toList hback))).refine
    (fun p => some p.2.1) (fun a => ((), a, ())) fun _ => rfl

section Digits

variable {p : Char → Bool} {ds rest : List Char} {stop : Char}

theorem takeWhile_append_stop (h : ∀ c ∈ ds, p c = true) (hstop : p stop = false) :
    (ds ++ stop :: rest).takeWhile p = ds := by
  rw [List.takeWhile_append_of_pos h, List.takeWhile_cons_of_neg (by simp [hstop]), List.append_nil]

theorem dropWhile_append_stop (h : ∀ c ∈ ds, p c = true) (hstop : p stop = false) :
    (ds ++ stop :: rest).dropWhile p = stop :: rest := by
  rw [List.dropWhile_append_of_pos h, List.dropWhile_cons_of_neg (by simp [hstop])]

end Digits

-- A number in decimals and the character that ends it.
def number (stop : Char) (hstop : ' ' ≤ stop ∧ stop.isDigit = false) : Form Nat where
  put n := Nat.toDigits 10 n ++ [stop]
  get input :=
    let digits := input.takeWhile Char.isDigit
    let n := Nat.ofDigitChars 10 digits 0
    match input.dropWhile Char.isDigit with
    | [] => none
    | c :: rest => if c = stop ∧ digits = Nat.toDigits 10 n then some (n, rest) else none
  printable n c hc := by
    rcases List.mem_append.mp hc with hc | hc
    · have hdigit := Nat.isDigit_of_mem_toDigits (by decide) (by decide) hc
      simp only [Char.isDigit, Bool.and_eq_true, decide_eq_true_eq] at hdigit
      exact UInt32.le_trans (by decide) hdigit.1
    · rw [List.mem_singleton.mp hc]
      exact hstop.1
  get_put n rest := by
    have hall : ∀ c ∈ Nat.toDigits 10 n, c.isDigit = true := fun c hc =>
      Nat.isDigit_of_mem_toDigits (by decide) (by decide) hc
    rw [List.append_assoc, List.singleton_append, takeWhile_append_stop hall hstop.2,
      dropWhile_append_stop hall hstop.2]
    simp only [Nat.ofDigitChars_ten_toDigits]
    simp
  get_append {input n rest} more hget := by
    dsimp only at hget ⊢
    cases hdrop : input.dropWhile Char.isDigit with
    | nil => simp [hdrop] at hget
    | cons c tail =>
        have hend : c.isDigit = false := by
          have hhead := List.head?_dropWhile_not Char.isDigit input
          rwa [hdrop] at hhead
        have hdigits : ∀ d ∈ input.takeWhile Char.isDigit, d.isDigit = true := fun d hd =>
          List.mem_takeWhile_imp hd
        have hsplit : input ++ more = input.takeWhile Char.isDigit ++ c :: (tail ++ more) := by
          rw [← List.cons_append, ← hdrop, ← List.append_assoc, List.takeWhile_append_dropWhile]
        simp only [hdrop] at hget
        rw [hsplit, takeWhile_append_stop hdigits hend, dropWhile_append_stop hdigits hend]
        dsimp only
        split_ifs at hget ⊢
        cases hget
        rfl

-- Whatever is written starts with a character other than `mark`, and so does whatever is read.
structure Avoids (w : Form α) (mark : Char) : Prop where
  put : ∀ a, ∃ c rest, w.put a = c :: rest ∧ c ≠ mark
  get : ∀ {input a rest}, w.get input = some (a, rest) → ∃ c tail, input = c :: tail ∧ c ≠ mark

-- Items up to a character that none of them starts with; at most `fuel` are read.
def getUntil (w : Form α) (stop : Char) : Nat → List Char → Option (List α × List Char)
  | 0, _ => none
  | fuel + 1, input =>
    if input.head? = some stop then some ([], input.tail)
    else do
      let (a, rest) ← w.get input
      let (as, rest) ← getUntil w stop fuel rest
      some (a :: as, rest)

theorem getUntil_put {w : Form α} {stop : Char} (h : w.Avoids stop) (as : List α) (rest : List Char)
    {fuel : Nat} (hfuel : as.length < fuel) :
    getUntil w stop fuel (as.flatMap w.put ++ stop :: rest) = some (as, rest) := by
  induction as generalizing fuel with
  | nil =>
      obtain ⟨fuel, rfl⟩ := Nat.exists_eq_succ_of_ne_zero (Nat.ne_zero_of_lt hfuel)
      simp [getUntil]
  | cons a as ih =>
      obtain ⟨fuel, rfl⟩ := Nat.exists_eq_succ_of_ne_zero (Nat.ne_zero_of_lt hfuel)
      obtain ⟨c, tail, hput, hne⟩ := h.put a
      have hhead : ((a :: as).flatMap w.put ++ stop :: rest).head? ≠ some stop := by
        rw [List.flatMap_cons, hput]
        exact fun hsame => hne (Option.some.inj hsame)
      have hrest := @ih fuel (Nat.lt_of_succ_lt_succ hfuel)
      rw [getUntil, if_neg hhead, List.flatMap_cons, List.append_assoc, w.get_put]
      simp [hrest]

theorem getUntil_append {w : Form α} {stop : Char} (h : w.Avoids stop) {fuel extra : Nat}
    {input rest : List Char} {as : List α} (more : List Char)
    (hget : getUntil w stop fuel input = some (as, rest)) :
    getUntil w stop (fuel + extra) (input ++ more) = some (as, rest ++ more) := by
  induction fuel generalizing input as with
  | zero => cases hget
  | succ fuel ih =>
      rw [getUntil] at hget
      rw [Nat.add_right_comm, getUntil]
      split_ifs at hget with hstop
      · obtain ⟨tail, rfl⟩ := List.head?_eq_some_iff.mp hstop
        cases hget
        simp
      · simp only [Option.bind_eq_bind, Option.bind_eq_some_iff, Prod.exists, Option.some.injEq] at hget
        obtain ⟨a, mid, hw, as, rest, huntil, ⟨⟩⟩ := hget
        obtain ⟨c, tail, rfl, hne⟩ := h.get hw
        rw [if_neg (by simpa using hne), w.get_append more hw]
        simp [ih huntil]

-- Any number of items and the character that ends them.
def many (w : Form α) (stop : Char) (hstop : ' ' ≤ stop) (h : w.Avoids stop) : Form (List α) where
  put as := as.flatMap w.put ++ [stop]
  get input := getUntil w stop (input.length + 1) input
  printable as c hc := by
    rcases List.mem_append.mp hc with hc | hc
    · obtain ⟨a, -, ha⟩ := List.mem_flatMap.mp hc
      exact w.printable a c ha
    · rw [List.mem_singleton.mp hc]
      exact hstop
  get_put as rest := by
    rw [List.append_assoc, List.singleton_append]
    apply getUntil_put h
    have hlong : as.length ≤ (as.flatMap w.put).length := by
      induction as with
      | nil => exact Nat.le_refl _
      | cons a as ih =>
          obtain ⟨c, tail, hput, -⟩ := h.put a
          rw [List.flatMap_cons, hput]
          simp only [List.length_cons, List.length_append]
          omega
    simp only [List.length_append, List.length_cons]
    omega
  get_append {input as rest} more hget := by
    rw [List.length_append, Nat.add_right_comm]
    exact getUntil_append h more hget

end Form

section Strings

-- The escapes of one letter, and what the letters stand for.
def letter? : Char → Option Char
  | '"' => some '"'
  | '\\' => some '\\'
  | '\x08' => some 'b'
  | '\t' => some 't'
  | '\n' => some 'n'
  | '\x0c' => some 'f'
  | '\r' => some 'r'
  | _ => none

def ofLetter? : Char → Option Char
  | '"' => some '"'
  | '\\' => some '\\'
  | 'b' => some '\x08'
  | 't' => some '\t'
  | 'n' => some '\n'
  | 'f' => some '\x0c'
  | 'r' => some '\r'
  | _ => none

def ofHex? (c : Char) : Option Nat :=
  if c.isDigit then some (c.toNat - '0'.toNat)
  else if 'a' ≤ c ∧ c ≤ 'f' then some (c.toNat - 'a'.toNat + 10)
  else none

-- A character in a string: quotes, backslashes and control characters are escaped.
def escape (c : Char) : List Char :=
  match letter? c with
  | some letter => ['\\', letter]
  | none =>
    if c < ' ' then ['\\', 'u', '0', '0', (c.toNat / 16).digitChar, (c.toNat % 16).digitChar] else [c]

def unicode : List Char → Option (Char × List Char)
  | '0' :: '0' :: high :: low :: rest => do
      let high ← ofHex? high
      let low ← ofHex? low
      some (Char.ofNat (16 * high + low), rest)
  | _ => none

def unescape : List Char → Option (Char × List Char)
  | [] => none
  | letter :: rest =>
    if letter = 'u' then unicode rest else (ofLetter? letter).map fun c => (c, rest)

def getChar : List Char → Option (Char × List Char)
  | [] => none
  | c :: rest =>
    if c = '\\' then unescape rest
    else if c = '"' ∨ c < ' ' then none
    else some (c, rest)

theorem escape_plain {c : Char} (hcontrol : ¬c < ' ') (hquote : c ≠ '"') (hslash : c ≠ '\\') :
    escape c = [c] := by
  have hletter : letter? c = none := by
    unfold letter?
    split
    · exact absurd rfl hquote
    · exact absurd rfl hslash
    all_goals first | rfl | exact absurd (by decide) hcontrol
  simp only [escape, hletter, if_neg hcontrol]

-- A control character is one of the first 32.
theorem exists_ofNat_of_control {c : Char} (h : c < ' ') : ∃ n < 32, c = Char.ofNat n :=
  ⟨c.toNat, UInt32.lt_iff_toNat_lt.mp h, c.ofNat_toNat.symm⟩

theorem getChar_escape (c : Char) (rest : List Char) : getChar (escape c ++ rest) = some (c, rest) := by
  by_cases hcontrol : c < ' '
  · obtain ⟨n, hn, rfl⟩ := exists_ofNat_of_control hcontrol
    interval_cases n <;> rfl
  by_cases hquote : c = '"'
  · subst hquote
    rfl
  by_cases hslash : c = '\\'
  · subst hslash
    rfl
  · rw [escape_plain hcontrol hquote hslash, List.singleton_append, getChar, if_neg hslash,
      if_neg (by simp only [hquote, hcontrol, or_self, not_false_eq_true])]

theorem escape_printable (c : Char) : ∀ d ∈ escape c, ' ' ≤ d := by
  by_cases hcontrol : c < ' '
  · obtain ⟨n, hn, rfl⟩ := exists_ofNat_of_control hcontrol
    refine le_of_isPrintable ?_
    interval_cases n <;> decide
  by_cases hquote : c = '"'
  · subst hquote
    exact le_of_isPrintable (by decide)
  by_cases hslash : c = '\\'
  · subst hslash
    exact le_of_isPrintable (by decide)
  · rw [escape_plain hcontrol hquote hslash]
    intro d hd
    rw [List.mem_singleton.mp hd]
    exact Char.not_lt.mp hcontrol

theorem escape_avoids (c : Char) : ∃ d rest, escape c = d :: rest ∧ d ≠ '"' := by
  by_cases hquote : c = '"'
  · subst hquote
    exact ⟨_, _, rfl, by decide⟩
  unfold escape
  split
  · exact ⟨_, _, rfl, by decide⟩
  · split_ifs
    · exact ⟨_, _, rfl, by decide⟩
    · exact ⟨c, [], rfl, hquote⟩

theorem unescape_append {input rest : List Char} {c : Char} (more : List Char)
    (h : unescape input = some (c, rest)) : unescape (input ++ more) = some (c, rest ++ more) := by
  unfold unescape at h
  split at h
  · cases h
  · rename_i letter tail
    rw [List.cons_append, unescape]
    split_ifs at h ⊢ with hu
    · unfold unicode at h
      split at h
      · simp only [Option.bind_eq_bind, Option.bind_eq_some_iff, Option.some.injEq] at h
        obtain ⟨high, hhigh, low, hlow, ⟨⟩⟩ := h
        simp [unicode, hhigh, hlow]
      · cases h
    · obtain ⟨c', hc, ⟨⟩⟩ := Option.map_eq_some_iff.mp h
      rw [hc]
      rfl

theorem getChar_append {input rest : List Char} {c : Char} (more : List Char)
    (h : getChar input = some (c, rest)) : getChar (input ++ more) = some (c, rest ++ more) := by
  unfold getChar at h
  split at h
  · cases h
  · rename_i d tail
    rw [List.cons_append, getChar]
    split_ifs at h ⊢ with hslash hplain
    · exact unescape_append more h
    · cases h
      rfl

theorem getChar_avoids {input rest : List Char} {c : Char} (h : getChar input = some (c, rest)) :
    ∃ d tail, input = d :: tail ∧ d ≠ '"' := by
  cases input with
  | nil => cases h
  | cons d tail =>
      refine ⟨d, tail, rfl, ?_⟩
      rintro rfl
      cases h

def char : Form Char := ⟨escape, getChar, escape_printable, getChar_escape, getChar_append⟩

theorem char_avoids : char.Avoids '"' := ⟨escape_avoids, getChar_avoids⟩

-- A string in quotes, and one or `null`.
def string : Form String :=
  ((char.many '"' (by decide) char_avoids).around "\"" "" (by decide) isPrintable_nothing).refine
    (fun l => some (String.ofList l)) String.toList fun s => by rw [String.ofList_toList]

def optString : Form (Option String) where
  put
    | none => ['n', 'u', 'l', 'l']
    | some s => string.put s
  get input :=
    if input.head? = some 'n' then ((Form.literal ['n', 'u', 'l', 'l'] (by decide)).get input).map
      fun p => (none, p.2)
    else (string.get input).map fun p => (some p.1, p.2)
  printable
    | none => le_of_isPrintable (by decide)
    | some s => string.printable s
  get_put
    | none, rest => by simp [Form.literal]
    | some s, rest => by
        have hhead : (string.put s ++ rest).head? ≠ some 'n' := fun h => by cases h
        simp only [if_neg hhead, string.get_put, Option.map_some]
  get_append {input s rest} more hget := by
    cases input with
    | nil => cases hget
    | cons c tail =>
        rw [List.head?_cons] at hget
        rw [List.cons_append, List.head?_cons]
        split_ifs at hget ⊢
        all_goals
          obtain ⟨⟨a, rest⟩, hfirst, ⟨⟩⟩ := Option.map_eq_some_iff.mp hget
          have hmore := Form.get_append _ more hfirst
          rw [List.cons_append] at hmore
          rw [hmore]
          rfl

end Strings

end Zbacs.Lib.Json
