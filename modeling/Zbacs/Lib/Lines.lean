import Zbacs.Lib.Bytes

namespace Zbacs.Lib

-- Reading a text line by line, as `BufRead::lines` does.

def newline : UInt8 := 0x0a

def carriageReturn : UInt8 := 0x0d

-- A line that was ended loses a carriage return before its end.
def chomp (line : Bytes) : Bytes :=
  if line.getLast? = some carriageReturn then line.dropLast else line

-- The lines from here on, when `current` has been read of the first. The last line may lack its
-- end, and is given as it is; there is no line after the last newline.
def linesFrom (current : Bytes) : Bytes → List Bytes
  | [] => if current = [] then [] else [current]
  | c :: rest =>
    if c = newline then chomp current :: linesFrom [] rest else linesFrom (current ++ [c]) rest

def lines (text : Bytes) : List Bytes := linesFrom [] text

-- `map_while`
def mapWhile {α β : Type} (f : α → Option β) : List α → List β
  | [] => []
  | a :: rest => match f a with
    | none => []
    | some b => b :: mapWhile f rest

section Lines

variable {current text more line : Bytes}

theorem chomp_eq_self (h : carriageReturn ∉ line) : chomp line = line := by
  rw [chomp, if_neg fun hlast => h (List.mem_of_getLast? hlast)]

theorem linesFrom_append (h : newline ∉ text) :
    linesFrom current (text ++ more) = linesFrom (current ++ text) more := by
  induction text generalizing current with
  | nil => rw [List.nil_append, List.append_nil]
  | cons c text ih =>
      obtain ⟨hc, htext⟩ := List.ne_and_not_mem_of_not_mem_cons h
      rw [List.cons_append, linesFrom, if_neg hc.symm, ih htext, List.append_assoc, List.singleton_append]

-- One line, and one that has not ended.
theorem lines_line (hline : newline ∉ line) (hcr : carriageReturn ∉ line) :
    lines (line ++ [newline]) = [line] := by
  rw [lines, linesFrom_append hline, List.nil_append, linesFrom, if_pos rfl, chomp_eq_self hcr]
  rfl

theorem lines_unended (hline : newline ∉ line) : lines line = if line = [] then [] else [line] := by
  have h := @linesFrom_append [] line [] hline
  rwa [List.append_nil, List.nil_append] at h

-- After a newline a new line begins.
theorem linesFrom_ended (h : text.getLast? = some newline) :
    linesFrom current (text ++ more) = linesFrom current text ++ lines more := by
  induction text generalizing current with
  | nil => cases h
  | cons c text ih =>
      rw [List.cons_append, linesFrom, linesFrom]
      cases text with
      | nil =>
          obtain rfl : c = newline := Option.some.inj h
          rfl
      | cons d text =>
          rw [List.getLast?_cons_cons] at h
          split_ifs
          · rw [ih h, List.cons_append]
          · exact ih h

-- A line that lacks its end is what it was when the end comes, if no carriage return is in it.
theorem linesFrom_unended (hne : current ++ text ≠ []) (hlast : text.getLast? ≠ some newline)
    (hcurrent : carriageReturn ∉ current) (htext : carriageReturn ∉ text) :
    linesFrom current (text ++ newline :: more) = linesFrom current text ++ lines more := by
  induction text generalizing current with
  | nil =>
      rw [List.append_nil] at hne
      rw [List.nil_append, linesFrom, linesFrom, if_pos rfl, if_neg hne, chomp_eq_self hcurrent]
      rfl
  | cons c text ih =>
      obtain ⟨hc, htext⟩ := List.ne_and_not_mem_of_not_mem_cons htext
      have hrest : text.getLast? ≠ some newline := by
        intro h
        rw [List.getLast?_cons, h] at hlast
        exact hlast rfl
      rw [List.cons_append, linesFrom, linesFrom]
      split_ifs with hnl
      · have htail : text ≠ [] := by
          rintro rfl
          exact hlast (by rw [hnl]; rfl)
        rw [ih (by simpa using htail) hrest List.not_mem_nil htext, List.cons_append]
      · refine ih (by simp) hrest ?_ htext
        simp only [List.mem_append, List.mem_singleton, not_or]
        exact ⟨hcurrent, hc⟩

-- The newline to put in front of what is appended: none after a newline and in an empty text.
def lead (text : Bytes) : Bytes :=
  if text ≠ [] ∧ text.getLast? ≠ some newline then [newline] else []

-- With it, what is appended stands on lines of its own.
theorem lines_lead (h : carriageReturn ∉ text) :
    lines (text ++ lead text ++ more) = lines text ++ lines more := by
  unfold lead
  split_ifs with hunended
  · rw [List.append_assoc, List.singleton_append]
    exact linesFrom_unended (by simpa using hunended.1) hunended.2 List.not_mem_nil h
  · rw [List.append_nil]
    by_cases hempty : text = []
    · subst hempty
      rfl
    · exact linesFrom_ended (by simpa [hempty] using hunended)

end Lines

section MapWhile

variable {α β : Type} {f : α → Option β}

theorem mapWhile_append_none {as rest : List α} {a : α} (h : f a = none) :
    mapWhile f (as ++ a :: rest) = mapWhile f as := by
  induction as with
  | nil => simp only [List.nil_append, mapWhile, h]
  | cons b as ih =>
      rw [List.cons_append, mapWhile, mapWhile, ih]

end MapWhile

end Zbacs.Lib
