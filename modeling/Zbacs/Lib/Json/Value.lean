import Zbacs.Lib.Json

namespace Zbacs.Lib.Json

-- Any text of the notation, as a reader gives it.
inductive Value where
  | null
  | bool (b : Bool)
  | number (text : String)
  | string (s : String)
  | array (items : List Value)
  | object (members : List (String × Value))

namespace Value

def get (key : String) : Value → Option Value
  | object members => (members.find? fun m => m.1 = key).map Prod.snd
  | _ => none

def asStr : Value → Option String
  | string s => some s
  | _ => none

end Value

-- An object whose strings need no escapes.

inductive Plain where
  | string (s : List Char)
  | bool (b : Bool)

def isPlain (c : Char) : Bool := ' ' ≤ c && c ≠ '"' && c ≠ '\\'

def Plain.IsPlain : Plain → Prop
  | string s => ∀ c ∈ s, isPlain c = true
  | bool _ => True

def Plain.value : Plain → Value
  | string s => .string (String.ofList s)
  | bool b => .bool b

def Plain.text : Plain → List Char
  | string s => '"' :: s ++ ['"']
  | bool b => (if b then "true" else "false").toList

def memberText (m : List Char × Plain) : List Char := '"' :: m.1 ++ '"' :: ':' :: m.2.text

-- The members one after another, and what ends them.
def membersText : List (List Char × Plain) → List Char
  | [] => ['\x7d']
  | [m] => memberText m ++ ['\x7d']
  | m :: rest => memberText m ++ ',' :: membersText rest

def objectText (members : List (List Char × Plain)) : List Char := '\x7b' :: membersText members

structure PlainObject (members : List (List Char × Plain)) : Prop where
  plain : ∀ m ∈ members, (∀ c ∈ m.1, isPlain c = true) ∧ m.2.IsPlain
  -- no key twice
  nodup : (members.map Prod.fst).Nodup

def objectOf (members : List (List Char × Plain)) : Value :=
  .object (members.map fun m => (String.ofList m.1, m.2.value))

-- A reader that gives back what is written without escapes and spaces.
def ReadsPlainObjects (fromStr : String → Option Value) : Prop :=
  ∀ members, PlainObject members → fromStr (String.ofList (objectText members)) = some (objectOf members)

-- Such a reader, which reads nothing else.

def readPlainString (input : List Char) : Option (List Char × List Char) :=
  match input.dropWhile isPlain with
  | '"' :: rest => some (input.takeWhile isPlain, rest)
  | _ => none

def readPlain : List Char → Option (Plain × List Char)
  | '"' :: input => (readPlainString input).map fun (s, rest) => (.string s, rest)
  | 't' :: 'r' :: 'u' :: 'e' :: rest => some (.bool true, rest)
  | 'f' :: 'a' :: 'l' :: 's' :: 'e' :: rest => some (.bool false, rest)
  | _ => none

def readMember : List Char → Option ((List Char × Plain) × List Char)
  | '"' :: input => do
    let (key, rest) ← readPlainString input
    match rest with
    | ':' :: rest => do
      let (v, rest) ← readPlain rest
      some ((key, v), rest)
    | _ => none
  | _ => none

def readMembers : Nat → List Char → Option (List (List Char × Plain))
  | 0, _ => none
  | fuel + 1, input => do
    if input = ['\x7d'] then some []
    else
      let (m, rest) ← readMember input
      match rest with
      | ',' :: rest => do
        let ms ← readMembers fuel rest
        some (m :: ms)
      | ['\x7d'] => some [m]
      | _ => none

def readPlainObject (text : String) : Option Value :=
  match text.toList with
  | '\x7b' :: rest => (readMembers text.length rest).map objectOf
  | _ => none

section Read

theorem readPlainString_append {s rest : List Char} (h : ∀ c ∈ s, isPlain c = true) :
    readPlainString (s ++ '"' :: rest) = some (s, rest) := by
  have hquote : isPlain '"' = false := by decide
  rw [readPlainString, Form.dropWhile_append_stop h hquote, Form.takeWhile_append_stop h hquote]
  rfl

theorem readPlain_text {v : Plain} (rest : List Char) (h : v.IsPlain) :
    readPlain (v.text ++ rest) = some (v, rest) := by
  cases v with
  | string s =>
      rw [Plain.text, List.cons_append, List.cons_append, List.append_assoc, List.singleton_append,
        readPlain, readPlainString_append h]
      rfl
  | bool b => cases b <;> rfl

theorem readMember_text {m : List Char × Plain} (rest : List Char)
    (h : (∀ c ∈ m.1, isPlain c = true) ∧ m.2.IsPlain) :
    readMember (memberText m ++ rest) = some (m, rest) := by
  rw [memberText, List.cons_append, List.cons_append, List.append_assoc, List.cons_append,
    List.cons_append, readMember, readPlainString_append h.1]
  change ((readPlain (m.2.text ++ rest)).bind fun p => some ((m.1, p.1), p.2)) = _
  rw [readPlain_text rest h.2]
  rfl

theorem memberText_ne (m : List Char × Plain) (rest : List Char) : memberText m ++ rest ≠ ['\x7d'] := by
  intro h
  have hhead := (List.cons.inj h).1
  exact absurd hhead (by decide)

theorem readMembers_text {members : List (List Char × Plain)} {fuel : Nat}
    (h : ∀ m ∈ members, (∀ c ∈ m.1, isPlain c = true) ∧ m.2.IsPlain) (hfuel : members.length < fuel) :
    readMembers fuel (membersText members) = some members := by
  induction members generalizing fuel with
  | nil =>
      obtain ⟨fuel, rfl⟩ := Nat.exists_eq_succ_of_ne_zero (Nat.ne_zero_of_lt hfuel)
      rw [membersText, readMembers, if_pos rfl]
  | cons m rest ih =>
      obtain ⟨fuel, rfl⟩ := Nat.exists_eq_succ_of_ne_zero (Nat.ne_zero_of_lt hfuel)
      have hm := h m List.mem_cons_self
      cases rest with
      | nil =>
          rw [membersText, readMembers, if_neg (memberText_ne m _), readMember_text _ hm]
          rfl
      | cons m' rest =>
          have hrest := ih (fun x hx => h x (List.mem_cons_of_mem m hx))
            (Nat.lt_of_succ_lt_succ hfuel)
          rw [membersText, readMembers, if_neg (memberText_ne m _), readMember_text _ hm]
          · change ((readMembers fuel (membersText (m' :: rest))).bind fun ms => some (m :: ms)) = _
            rw [hrest]
            rfl
          · exact List.cons_ne_nil m' rest

theorem length_membersText (members : List (List Char × Plain)) :
    members.length < (membersText members).length := by
  induction members with
  | nil => exact Nat.succ_pos 0
  | cons m rest ih =>
      cases rest with
      | nil => simp [membersText, memberText]
      | cons m' rest =>
          rw [membersText]
          · simp only [List.length_cons, List.length_append] at ih ⊢
            omega
          · exact List.cons_ne_nil m' rest

theorem readPlainObject_reads : ReadsPlainObjects readPlainObject := by
  intro members h
  have hfuel : members.length < (String.ofList (objectText members)).length := by
    rw [String.length_ofList, objectText, List.length_cons]
    exact Nat.lt_succ_of_lt (length_membersText members)
  have hread : readPlainObject (String.ofList (objectText members)) =
      (readMembers (String.ofList (objectText members)).length (membersText members)).map objectOf := by
    rw [readPlainObject, String.toList_ofList, objectText]
    rfl
  rw [hread, readMembers_text h.plain hfuel]
  rfl

end Read

end Zbacs.Lib.Json
