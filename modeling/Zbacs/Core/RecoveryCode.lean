import Zbacs.Core.Utf8
import Zbacs.Lib.Pieces

namespace Zbacs.Core

open Zbacs.Lib

-- The code that a backup of the owner's keys is encrypted under.

-- `char::is_whitespace`: the characters with Unicode's `White_Space` property.
def isWhitespace (c : Char) : Bool :=
  0x09 ≤ c.toNat && c.toNat ≤ 0x0d || c.toNat = 0x20 || c.toNat = 0x85 || c.toNat = 0xa0 ||
    c.toNat = 0x1680 || 0x2000 ≤ c.toNat && c.toNat ≤ 0x200a || c.toNat = 0x2028 ||
    c.toNat = 0x2029 || c.toNat = 0x202f || c.toNat = 0x205f || c.toNat = 0x3000

-- `str::from_utf8`
def fromUtf8 (b : Bytes) : Option String := String.fromUTF8? b.toByteArray

-- Crockford base32 minus `I`, `L`, `O`, `U`.
def alphabetText : String := "0123456789ABCDEFGHJKMNPQRSTVWXYZ"

def alphabet : Bytes := utf8 alphabetText

def groups : Nat := 5
def perGroup : Nat := 5

theorem alphabet_pos : 0 < alphabet.length := by decide +kernel

def letter (b : UInt8) : Char :=
  Char.ofNat (alphabet.get ⟨b.toNat % alphabet.length, Nat.mod_lt _ alphabet_pos⟩).toNat

-- The characters of a code, without the dashes.
structure IsCode (chars : List Char) : Prop where
  length_eq : chars.length = groups * perGroup
  letters : ∀ c ∈ chars, c ∈ alphabetText.toList

-- Five groups joined by dashes.
def grouped (chars : List Char) : String :=
  "-".intercalate ((pieces perGroup groups chars).map String.ofList)

namespace RecoveryCode

-- The text of a code from what the random number generator filled in.
def generateText (buf : FixedBytes (groups * perGroup)) : String :=
  buf.bytes.zipIdx.foldl (fun out (b, i) =>
    (if i > 0 ∧ i % perGroup = 0 then out.push '-' else out).push (letter b)) ""

-- Case, spaces and dashes are ignored.
def normalise (input : String) : List Char :=
  (input.toList.filter fun c => !isWhitespace c && c != '-').map Char.toUpper

-- The text of a code that is typed back; `none` is a panic.
def parseText (input : String) : Option (Result String) :=
  let normalised := utf8 (String.ofList (normalise input))
  if normalised.length ≠ groups * perGroup then some (.error .recoveryCode)
  else if !normalised.all (alphabet.contains ·) then some (.error .recoveryCode)
  else do
    let groups ← (pieces perGroup (divCeil normalised.length perGroup) normalised).mapM fromUtf8
    some (.ok ("-".intercalate groups))

end RecoveryCode

section Ascii

-- A character of the alphabet is its byte.
def asciiByte (c : Char) : UInt8 := UInt8.ofNat c.toNat

variable {chars : List Char} {c : Char}

theorem utf8EncodeChar_ascii (h : c.toNat < 0x80) : String.utf8EncodeChar c = [asciiByte c] := by
  have hsize : c.utf8Size = 1 := by
    unfold Char.utf8Size
    rw [if_pos]
    rw [UInt32.le_iff_toNat_le]
    exact Nat.le_of_lt_succ h
  rw [String.utf8EncodeChar_eq_singleton hsize]
  congr 1

theorem utf8_ascii (h : ∀ c ∈ chars, c.toNat < 0x80) :
    utf8 (String.ofList chars) = chars.map asciiByte := by
  rw [utf8_ofList]
  induction chars with
  | nil => rfl
  | cons c chars ih =>
      rw [List.flatMap_cons, utf8EncodeChar_ascii (h c List.mem_cons_self), List.map_cons,
        ih fun x hx => h x (List.mem_cons_of_mem _ hx)]
      rfl

theorem toNat_asciiByte (h : c.toNat < 0x80) : (asciiByte c).toNat = c.toNat := by
  rw [asciiByte, UInt8.toNat_ofNat']
  omega

theorem asciiByte_inj {c c' : Char} (h : c.toNat < 0x80) (h' : c'.toNat < 0x80)
    (heq : asciiByte c = asciiByte c') : c = c' := by
  have hnat := congrArg UInt8.toNat heq
  rw [toNat_asciiByte h, toNat_asciiByte h'] at hnat
  exact Char.toNat_inj.mp hnat

theorem map_asciiByte_inj {chars' : List Char} (h : ∀ c ∈ chars, c.toNat < 0x80)
    (h' : ∀ c ∈ chars', c.toNat < 0x80) (heq : chars.map asciiByte = chars'.map asciiByte) :
    chars = chars' := by
  rw [← utf8_ascii h, ← utf8_ascii h'] at heq
  exact String.ofList_inj.mp (utf8_injective heq)

theorem fromUtf8_utf8 (s : String) : fromUtf8 (utf8 s) = some s := by
  have hbytes : (utf8 s).toByteArray = s.toByteArray := by
    apply ByteArray.ext
    simp [utf8]
  rw [fromUtf8, hbytes, String.fromUTF8?, dif_pos s.isValidUTF8]
  rfl

theorem mapM_fromUtf8 (groups : List (List Char))
    (h : ∀ chars ∈ groups, ∀ c ∈ chars, c.toNat < 0x80) :
    (groups.map (List.map asciiByte)).mapM fromUtf8 = some (groups.map String.ofList) := by
  induction groups with
  | nil => rfl
  | cons chars groups ih =>
      have htext := fromUtf8_utf8 (String.ofList chars)
      rw [utf8_ascii (h chars List.mem_cons_self)] at htext
      rw [List.map_cons, List.mapM_cons, htext, ih fun x hx => h x (List.mem_cons_of_mem _ hx)]
      rfl

end Ascii

section Letters

variable {chars : List Char} {c : Char}

-- What a letter is to the rules of reading a code.
theorem letter_plain : ∀ c ∈ alphabetText.toList,
    c.toNat < 0x80 ∧ isWhitespace c = false ∧ c ≠ '-' ∧ c.toUpper = c := by
  have h : alphabetText.toList.all (fun c =>
      decide (c.toNat < 0x80) && !isWhitespace c && c != '-' && c.toUpper == c) = true := by
    decide +kernel
  intro c hc
  have hplain := List.all_eq_true.mp h c hc
  simp only [Bool.and_eq_true, decide_eq_true_eq, Bool.not_eq_true', bne_iff_ne,
    beq_iff_eq] at hplain
  obtain ⟨⟨⟨hascii, hspace⟩, hdash⟩, hupper⟩ := hplain
  exact ⟨hascii, hspace, hdash, hupper⟩

theorem alphabet_eq : alphabet = alphabetText.toList.map asciiByte := by
  have h := utf8_ascii fun c hc => (letter_plain c hc).1
  rwa [String.ofList_toList] at h

-- Bytes of letters are the bytes of text that is all letters.
theorem all_alphabet_iff : (utf8 (String.ofList chars)).all (alphabet.contains ·) = true ↔
    ∀ c ∈ chars, c ∈ alphabetText.toList := by
  rw [List.all_eq_true]
  constructor
  · intro h c hc
    have hne : String.utf8EncodeChar c ≠ [] := by
      rw [← List.length_pos_iff, String.length_utf8EncodeChar]
      exact c.utf8Size_pos
    obtain ⟨b, hb⟩ := List.exists_mem_of_ne_nil _ hne
    have hmem : b ∈ utf8 (String.ofList chars) := by
      rw [utf8_ofList]
      exact List.mem_flatMap.mpr ⟨c, hc, hb⟩
    have hletter := List.contains_iff_mem.mp (h b hmem)
    rw [alphabet_eq] at hletter
    obtain ⟨c', hc', rfl⟩ := List.mem_map.mp hletter
    have hbyte := toNat_asciiByte (letter_plain c' hc').1
    have hsame := mem_utf8EncodeChar (hbyte ▸ (letter_plain c' hc').1) hb
    rw [Char.toNat_inj.mp (hsame.trans hbyte)]
    exact hc'
  · intro h b hb
    rw [utf8_ascii fun c hc => (letter_plain c (h c hc)).1] at hb
    obtain ⟨c, hc, rfl⟩ := List.mem_map.mp hb
    rw [List.contains_iff_mem, alphabet_eq]
    exact List.mem_map.mpr ⟨c, h c hc, rfl⟩

-- What is left of a joined list without the separator.
theorem filter_intercalate {α : Type} {keep : α → Bool} {sep : List α} (hsep : sep.filter keep = [])
    (ls : List (List α)) : (sep.intercalate ls).filter keep = ls.flatten.filter keep := by
  induction ls with
  | nil => rfl
  | cons l ls ih =>
      cases ls with
      | nil => simp
      | cons l' ls =>
          rw [List.intercalate_cons_cons, List.filter_append, List.filter_append, hsep, ih,
            List.append_nil, ← List.filter_append]
          rfl

theorem toList_grouped (chars : List Char) :
    (grouped chars).toList = ['-'].intercalate (pieces perGroup groups chars) := by
  rw [grouped, String.toList_intercalate, List.map_map]
  simp

theorem IsCode.ascii (h : IsCode chars) : ∀ c ∈ chars, c.toNat < 0x80 := fun c hc =>
  (letter_plain c (h.letters c hc)).1

theorem IsCode.flatten (h : IsCode chars) : (pieces perGroup groups chars).flatten = chars := by
  rw [flatten_pieces, List.take_of_length_le (le_of_eq h.length_eq)]

theorem IsCode.filter_dashes (h : IsCode chars) :
    (grouped chars).toList.filter (fun c => c != '-') = chars := by
  have hsep : ['-'].filter (fun c => c != '-') = [] := by decide
  rw [toList_grouped, filter_intercalate hsep, h.flatten, List.filter_eq_self]
  exact fun c hc => bne_iff_ne.mpr (letter_plain c (h.letters c hc)).2.2.1

theorem IsCode.toList_ascii (h : IsCode chars) : ∀ c ∈ (grouped chars).toList, c.toNat < 0x80 := by
  intro c hc
  by_cases hdash : c = '-'
  · rw [hdash]
    decide
  · have hmem : c ∈ (grouped chars).toList.filter fun c => c != '-' :=
      List.mem_filter.mpr ⟨hc, bne_iff_ne.mpr hdash⟩
    rw [h.filter_dashes] at hmem
    exact h.ascii c hmem

-- A code is read back from its text.
theorem IsCode.normalise (h : IsCode chars) : RecoveryCode.normalise (grouped chars) = chars := by
  have hsep : ['-'].filter (fun c => !isWhitespace c && c != '-') = [] := by decide +kernel
  have hkeep : chars.filter (fun c => !isWhitespace c && c != '-') = chars := by
    refine List.filter_eq_self.mpr fun c hc => ?_
    obtain ⟨-, hspace, hdash, -⟩ := letter_plain c (h.letters c hc)
    rw [hspace, bne_iff_ne.mpr hdash]
    rfl
  rw [RecoveryCode.normalise, toList_grouped, filter_intercalate hsep, h.flatten, hkeep]
  conv_rhs => rw [← List.map_id chars]
  exact List.map_congr_left fun c hc => (letter_plain c (h.letters c hc)).2.2.2

theorem parseText_code {input : String} (h : IsCode (RecoveryCode.normalise input)) :
    RecoveryCode.parseText input = some (.ok (grouped (RecoveryCode.normalise input))) := by
  have hlength : (utf8 (String.ofList (RecoveryCode.normalise input))).length = groups * perGroup := by
    rw [utf8_ascii h.ascii, List.length_map, h.length_eq]
  have hall := all_alphabet_iff.mpr h.letters
  have hcount : divCeil (groups * perGroup) perGroup = groups := by decide
  unfold RecoveryCode.parseText
  dsimp only
  rw [if_neg (not_not.mpr hlength), if_neg (by rw [hall]; decide), hlength, hcount, utf8_ascii h.ascii,
    pieces_map, mapM_fromUtf8 _ fun piece hpiece c hc => h.ascii c (mem_of_mem_pieces hpiece hc)]
  rfl

theorem parseText_other {input : String} (h : ¬IsCode (RecoveryCode.normalise input)) :
    RecoveryCode.parseText input = some (.error .recoveryCode) := by
  unfold RecoveryCode.parseText
  dsimp only
  by_cases hlength : (utf8 (String.ofList (RecoveryCode.normalise input))).length = groups * perGroup
  · rw [if_neg (not_not.mpr hlength)]
    have hletters : ¬∀ c ∈ RecoveryCode.normalise input, c ∈ alphabetText.toList := by
      intro hletters
      rw [utf8_ascii fun c hc => (letter_plain c (hletters c hc)).1, List.length_map] at hlength
      exact h ⟨hlength, hletters⟩
    rw [← all_alphabet_iff, Bool.not_eq_true] at hletters
    rw [hletters]
    rfl
  · rw [if_pos hlength]

theorem letter_mem (b : UInt8) : letter b ∈ alphabetText.toList := by
  have hmem : alphabet.get ⟨b.toNat % alphabet.length, Nat.mod_lt _ alphabet_pos⟩ ∈ alphabet :=
    List.get_mem ..
  rw [letter]
  generalize alphabet.get _ = a at hmem ⊢
  rw [alphabet_eq] at hmem
  obtain ⟨c, hc, rfl⟩ := List.mem_map.mp hmem
  rwa [toNat_asciiByte (letter_plain c hc).1, Char.ofNat_toNat]

theorem isCode_letters (buf : FixedBytes (groups * perGroup)) : IsCode (buf.bytes.map letter) := by
  refine ⟨by rw [List.length_map, buf.length_eq], fun c hc => ?_⟩
  obtain ⟨b, -, rfl⟩ := List.mem_map.mp hc
  exact letter_mem b

theorem toList_generateText (l : List (UInt8 × Nat)) (out : String) :
    (l.foldl (fun out (b, i) =>
      (if i > 0 ∧ i % perGroup = 0 then out.push '-' else out).push (letter b)) out).toList =
    out.toList ++ l.flatMap fun (b, i) =>
      if i > 0 ∧ i % perGroup = 0 then ['-', letter b] else [letter b] := by
  induction l generalizing out with
  | nil => simp
  | cons x l ih =>
      obtain ⟨b, i⟩ := x
      rw [List.foldl_cons, ih, List.flatMap_cons]
      dsimp only
      split_ifs <;> simp

theorem generateText_eq (buf : FixedBytes (groups * perGroup)) :
    RecoveryCode.generateText buf = grouped (buf.bytes.map letter) := by
  apply String.toList_inj.mp
  rw [RecoveryCode.generateText, toList_generateText, toList_grouped]
  obtain ⟨bytes, hlength⟩ := buf
  have hexplicit : ∃ f : Fin bytes.length → UInt8, bytes = List.ofFn f :=
    ⟨_, List.ofFn_getElem.symm⟩
  rw [hlength] at hexplicit
  obtain ⟨f, rfl⟩ := hexplicit
  rfl

end Letters

-- A code, as one of the two ways of getting it leaves it.
structure RecoveryCode where
  text : String
  formed : ∃ chars, IsCode chars ∧ text = grouped chars

namespace RecoveryCode

def generate (buf : FixedBytes (groups * perGroup)) : RecoveryCode :=
  ⟨generateText buf, _, isCode_letters buf, generateText_eq buf⟩

theorem formed_of_parseText {input text : String} (h : parseText input = some (.ok text)) :
    ∃ chars, IsCode chars ∧ text = grouped chars := by
  by_cases hcode : IsCode (normalise input)
  · rw [parseText_code hcode] at h
    exact ⟨_, hcode, (Except.ok.inj (Option.some.inj h)).symm⟩
  · rw [parseText_other hcode] at h
    cases h

def parse (input : String) : Option (Result RecoveryCode) :=
  match h : parseText input with
  | none => none
  | some (.error e) => some (.error e)
  | some (.ok text) => some (.ok ⟨text, formed_of_parseText h⟩)

-- The code as shown to the person.
def asStr (code : RecoveryCode) : String := code.text

-- Bytes fed to the KDF: the code without separators.
def kdfInput (code : RecoveryCode) : Bytes := (utf8 code.text).filter fun b => b != 0x2d

section Parse

variable {input other : String} {code code' : RecoveryCode} {chars : List Char}

theorem parse_eq_ok : parse input = some (.ok code) ↔ parseText input = some (.ok code.text) := by
  unfold parse
  split
  · rename_i h
    simp [h]
  · rename_i h
    simp [h]
  · rename_i text h
    constructor
    · intro hcode
      obtain rfl := Except.ok.inj (Option.some.inj hcode)
      exact h
    · intro htext
      obtain ⟨text', formed⟩ := code
      obtain rfl := Except.ok.inj (Option.some.inj (h.symm.trans htext))
      rfl

theorem parse_eq_ok_iff : parse input = some (.ok code) ↔
    IsCode (normalise input) ∧ code.text = grouped (normalise input) := by
  rw [parse_eq_ok]
  by_cases hcode : IsCode (normalise input)
  · rw [parseText_code hcode]
    constructor
    · intro h
      exact ⟨hcode, (Except.ok.inj (Option.some.inj h)).symm⟩
    · rintro ⟨-, htext⟩
      rw [htext]
  · rw [parseText_other hcode]
    exact iff_of_false (by simp) fun h => hcode h.1

theorem parse_other (h : ¬IsCode (normalise input)) :
    parse input = some (.error .recoveryCode) := by
  have htext := parseText_other h
  unfold parse
  split
  · rename_i hnone
    rw [htext] at hnone
    cases hnone
  · rename_i e herror
    rw [htext] at herror
    cases herror
    rfl
  · rename_i text hok
    rw [htext] at hok
    cases hok

-- What is shown of a code is read back as the code.
theorem parse_asStr (code : RecoveryCode) : parse code.asStr = some (.ok code) := by
  obtain ⟨chars, hchars, htext⟩ := code.formed
  rw [parse_eq_ok_iff, asStr, htext, hchars.normalise]
  exact ⟨hchars, rfl⟩

theorem kdfInput_eq (h : IsCode chars) (htext : code.text = grouped chars) :
    code.kdfInput = chars.map asciiByte := by
  have hascii := h.toList_ascii
  have hdash : ∀ c ∈ (grouped chars).toList, (asciiByte c != 0x2d) = (c != '-') := by
    intro c hc
    have hsame : asciiByte c = 0x2d ↔ c = '-' :=
      ⟨fun hbyte => asciiByte_inj (hascii c hc) (by decide) hbyte, fun hchar => by rw [hchar]; rfl⟩
    rw [Bool.eq_iff_iff, bne_iff_ne, bne_iff_ne, ne_eq, ne_eq, hsame]
  have hbytes : utf8 (grouped chars) = (grouped chars).toList.map asciiByte := by
    have hlist := utf8_ascii hascii
    rwa [String.ofList_toList] at hlist
  have hfilter : (grouped chars).toList.filter (fun c => asciiByte c != 0x2d) = chars :=
    (List.filter_congr hdash).trans h.filter_dashes
  rw [kdfInput, htext, hbytes, List.filter_map]
  exact congrArg (List.map asciiByte) hfilter

theorem length_kdfInput (code : RecoveryCode) : code.kdfInput.length = groups * perGroup := by
  obtain ⟨chars, hchars, htext⟩ := code.formed
  rw [kdfInput_eq hchars htext, List.length_map, hchars.length_eq]

theorem kdfInput_inj (h : code.kdfInput = code'.kdfInput) : code = code' := by
  obtain ⟨text, formed⟩ := code
  obtain ⟨text', formed'⟩ := code'
  obtain ⟨chars, hchars, htext⟩ := id formed
  obtain ⟨chars', hchars', htext'⟩ := id formed'
  rw [kdfInput_eq hchars htext, kdfInput_eq hchars' htext'] at h
  have hsame := map_asciiByte_inj hchars.ascii hchars'.ascii h
  obtain rfl : text = text' := by rw [htext, htext', hsame]
  rfl

end Parse

-- What is typed back is read exactly if its letters and digits, without spaces and dashes, are a
-- code, and then as that code.
theorem parse_exact (input : String) :
    (IsCode (normalise input) ↔ ∃ code, parse input = some (.ok code)) ∧
    (¬IsCode (normalise input) → parse input = some (.error .recoveryCode)) ∧
    (∀ code, parse input = some (.ok code) →
      code.asStr = "-".intercalate ((pieces 5 5 (normalise input)).map String.ofList) ∧
      parse code.asStr = some (.ok code)) ∧
    (∀ other code code', parse input = some (.ok code) → parse other = some (.ok code') →
      (code.kdfInput = code'.kdfInput ↔ normalise input = normalise other)) ∧
    ∀ buf, parse (generate buf).asStr = some (.ok (generate buf)) := by
  refine ⟨⟨fun hcode => ?_, ?_⟩, parse_other, fun code h => ?_, fun other code code' h h' => ?_,
    fun buf => parse_asStr _⟩
  · exact ⟨⟨_, _, hcode, rfl⟩, parse_eq_ok_iff.mpr ⟨hcode, rfl⟩⟩
  · rintro ⟨code, h⟩
    exact (parse_eq_ok_iff.mp h).1
  · exact ⟨(parse_eq_ok_iff.mp h).2, parse_asStr code⟩
  · obtain ⟨hcode, htext⟩ := parse_eq_ok_iff.mp h
    obtain ⟨hcode', htext'⟩ := parse_eq_ok_iff.mp h'
    rw [kdfInput_eq hcode htext, kdfInput_eq hcode' htext']
    constructor
    · exact map_asciiByte_inj hcode.ascii hcode'.ascii
    · intro hsame
      rw [hsame]

end RecoveryCode

end Zbacs.Core
