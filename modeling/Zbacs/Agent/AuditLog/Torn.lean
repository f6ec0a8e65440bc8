import Zbacs.Agent.AuditLog

namespace Zbacs.Agent.Audit

open Zbacs.Lib Zbacs.Core

variable {J : Json} {entry : Entry} {cut : Nat} {call : Call} {calls : List Call}

section Object

-- No control character is in an object, nor in a piece of one.
theorem Json.Lawful.control (hJ : J.Lawful) {b : UInt8} (hb : b.toNat < 32) : b ∉ object J entry := by
  intro h
  obtain ⟨c, hc, hsame⟩ := mem_utf8 (by omega) h
  have hspace : 32 ≤ c.toNat := hJ.printable entry c hc
  omega

theorem piece_isPrefix (entry : Entry) (cut : Nat) : piece J entry cut <+: object J entry :=
  (List.take_prefix _ _).trans (List.dropLast_prefix _)

theorem Json.Lawful.control_piece (hJ : J.Lawful) {b : UInt8} (hb : b.toNat < 32) :
    b ∉ piece J entry cut :=
  fun h => hJ.control hb ((piece_isPrefix entry cut).subset h)

theorem piece_ne_object (h : piece J entry cut ≠ []) : piece J entry cut ≠ object J entry := by
  intro hsame
  have hlen := congrArg List.length hsame
  have hpos := List.length_pos_iff.mpr (hsame ▸ h)
  rw [piece, List.length_take, List.length_dropLast] at hlen
  omega

-- A piece that is text is not read as an entry.
theorem Json.Lawful.piece_unread (hJ : J.Lawful) {text : String} (hpiece : piece J entry cut ≠ [])
    (h : decodeLine (piece J entry cut) = some text) : J.fromStr text = none := by
  have hbytes : utf8 text = piece J entry cut := utf8_of_fromUTF8? h
  refine hJ.closes entry text (toList_prefix_of_utf8 ?_) ?_
  · rw [hbytes]
    exact piece_isPrefix entry cut
  · rintro rfl
    exact piece_ne_object hpiece hbytes.symm

end Object

section Content

-- What a call adds to the lines of the file.
def Call.lines (J : Json) : Call → List Bytes
  | .completed entry => [object J entry]
  | .interrupted _ none => []
  | .interrupted entry (some cut) => if piece J entry cut = [] then [] else [piece J entry cut]

theorem lines_lead_append (hJ : J.Lawful) {file : Bytes} (hfile : carriageReturn ∉ file) :
    Zbacs.Lib.lines (file ++ call.written J file) = Zbacs.Lib.lines file ++ call.lines J := by
  have hnl : newline.toNat < 32 := by decide
  have hcr : carriageReturn.toNat < 32 := by decide
  cases call with
  | completed entry =>
      rw [Call.written, appended, List.append_assoc, ← List.append_assoc file, lines_lead hfile,
        lines_line (hJ.control hnl) (hJ.control hcr)]
      rfl
  | interrupted entry cut =>
      cases cut with
      | none => rw [Call.written, Call.lines, List.append_nil, List.append_nil]
      | some cut =>
          rw [Call.written, ← List.append_assoc, lines_lead hfile, lines_unended (hJ.control_piece hnl)]
          rfl

theorem carriageReturn_written (hJ : J.Lawful) (call : Call) (file : Bytes) :
    carriageReturn ∉ call.written J file := by
  have hcr : carriageReturn.toNat < 32 := by decide
  have hlead : carriageReturn ∉ lead file := by
    unfold lead
    split_ifs <;> decide
  cases call with
  | completed entry =>
      simp only [Call.written, appended, List.mem_append, not_or, List.mem_singleton]
      exact ⟨⟨hlead, hJ.control hcr⟩, by decide⟩
  | interrupted entry cut =>
      cases cut with
      | none => exact List.not_mem_nil
      | some cut =>
          simp only [Call.written, List.mem_append, not_or]
          exact ⟨hlead, hJ.control_piece hcr⟩

theorem runCalls_append (calls : List Call) (call : Call) :
    runCalls J (calls ++ [call]) = call.step J (runCalls J calls) := by
  simp only [runCalls, List.foldl_append, List.foldl_cons, List.foldl_nil]

-- The lines of the file are those of the calls, one call after another.
theorem lines_runCalls (hJ : J.Lawful) (calls : List Call) :
    carriageReturn ∉ (runCalls J calls).getD [] ∧
      Zbacs.Lib.lines ((runCalls J calls).getD []) = calls.flatMap (Call.lines J) := by
  induction calls using List.reverseRecOn with
  | nil => exact ⟨List.not_mem_nil, rfl⟩
  | append_singleton calls call ih =>
      obtain ⟨hcr, hlines⟩ := ih
      rw [runCalls_append, Call.step, Option.getD_some, lines_lead_append hJ hcr, hlines,
        List.flatMap_append, List.flatMap_singleton]
      refine ⟨?_, rfl⟩
      rw [List.mem_append, not_or]
      exact ⟨hcr, carriageReturn_written hJ call _⟩

end Content

section Read

-- The entries on these lines.
def entriesOn (J : Json) (ls : List Bytes) : List Entry := (mapWhile decodeLine ls).filterMap J.fromStr

theorem read_runCalls (hJ : J.Lawful) (calls : List Call) (limit : Nat) :
    read J (runCalls J calls) limit = (entriesOn J (calls.flatMap (Call.lines J))).reverse.take limit := by
  obtain ⟨-, hlines⟩ := lines_runCalls hJ calls
  cases hfile : runCalls J calls with
  | none =>
      rw [hfile] at hlines
      rw [← hlines]
      exact List.take_nil.symm
  | some file =>
      rw [hfile] at hlines
      rw [← hlines]
      rfl

variable {rest : List Bytes}

theorem entriesOn_object (hJ : J.Lawful) :
    entriesOn J (object J entry :: rest) = entry :: entriesOn J rest := by
  have hline : decodeLine (object J entry) = some (J.toWriter entry) := fromUTF8?_utf8 _
  simp only [entriesOn, mapWhile, hline, List.filterMap_cons, hJ.reads]

-- A call that stops between two characters leaves nothing to read.
theorem entriesOn_interrupted (hJ : J.Lawful) {cut : Option Nat}
    (h : ¬(Call.interrupted entry cut).CutsCharacter J) :
    entriesOn J ((Call.interrupted entry cut).lines J ++ rest) = entriesOn J rest := by
  cases cut with
  | none => rfl
  | some cut =>
      rw [Call.lines]
      split_ifs with hpiece
      · rfl
      · cases hline : decodeLine (piece J entry cut) with
        | none => exact absurd ⟨entry, cut, rfl, hline⟩ h
        | some text =>
            simp only [List.singleton_append, entriesOn, mapWhile, hline, List.filterMap_cons,
              hJ.piece_unread hpiece hline]

-- Nothing is read beyond a call that stops inside a character.
theorem lines_of_cutsCharacter (h : call.CutsCharacter J) :
    ∃ line, call.lines J = [line] ∧ decodeLine line = none := by
  obtain ⟨entry, cut, rfl, hline⟩ := h
  refine ⟨piece J entry cut, if_neg ?_, hline⟩
  intro hempty
  rw [hempty, show decodeLine [] = some "" from fromUTF8?_utf8 ""] at hline
  cases hline

theorem entriesOn_cut (before : List Bytes) {after : List Bytes} (h : call.CutsCharacter J) :
    entriesOn J (before ++ (call.lines J ++ after)) = entriesOn J before := by
  obtain ⟨line, hlines, hline⟩ := lines_of_cutsCharacter h
  rw [hlines, List.singleton_append, entriesOn, mapWhile_append_none hline]
  rfl

theorem entriesOn_completed (hJ : J.Lawful) (h : ∀ call ∈ calls, ¬call.CutsCharacter J) :
    entriesOn J (calls.flatMap (Call.lines J)) = completedEntries calls := by
  induction calls with
  | nil => rfl
  | cons call calls ih =>
      have hrest := ih fun call' hcall => h call' (List.mem_cons_of_mem _ hcall)
      have hcall := h call List.mem_cons_self
      rw [List.flatMap_cons]
      cases call with
      | completed entry =>
          rw [Call.lines, List.singleton_append, entriesOn_object hJ, hrest]
          rfl
      | interrupted entry cut =>
          rw [entriesOn_interrupted hJ hcall, hrest]
          rfl

-- Nothing is made up, whatever was interrupted: at most what was completed is read.
theorem entriesOn_isPrefix (hJ : J.Lawful) (calls : List Call) :
    entriesOn J (calls.flatMap (Call.lines J)) <+: completedEntries calls := by
  induction calls with
  | nil => exact List.prefix_refl _
  | cons call calls ih =>
      rw [List.flatMap_cons]
      by_cases hcut : call.CutsCharacter J
      · rw [← List.nil_append (call.lines J ++ _), entriesOn_cut [] hcut]
        exact List.nil_prefix
      · cases call with
        | completed entry =>
            rw [Call.lines, List.singleton_append, entriesOn_object hJ]
            exact (List.prefix_cons_inj entry).mpr ih
        | interrupted entry cut => rwa [entriesOn_interrupted hJ hcut]

end Read

section Recovery

theorem completedEntries_append (before after : List Call) :
    completedEntries (before ++ after) = completedEntries before ++ completedEntries after :=
  List.filterMap_append

theorem entry?_of_cutsCharacter (h : call.CutsCharacter J) : call.entry? = none := by
  obtain ⟨entry, cut, rfl, -⟩ := h
  rfl

theorem completedEntries_cut (before after : List Call) (h : call.CutsCharacter J) :
    completedEntries (before ++ call :: after) = completedEntries before ++ completedEntries after := by
  rw [completedEntries_append, completedEntries, completedEntries, List.filterMap_cons,
    entry?_of_cutsCharacter h]
  rfl

-- The calls up to the first that stops inside a character.
theorem exists_first_cut (J : Json) (calls : List Call) : (∀ call ∈ calls, ¬call.CutsCharacter J) ∨
    ∃ before call after, calls = before ++ call :: after ∧ call.CutsCharacter J ∧
      ∀ call ∈ before, ¬call.CutsCharacter J := by
  classical
  cases hfind : calls.find? fun call => decide (call.CutsCharacter J) with
  | none => exact .inl fun call hcall => by simpa using List.find?_eq_none.mp hfind call hcall
  | some call =>
      obtain ⟨hcut, before, after, hsplit, hbefore⟩ := List.find?_eq_some_iff_append.mp hfind
      exact .inr ⟨before, call, after, hsplit, by simpa using hcut,
        fun call' hcall => by simpa using hbefore call' hcall⟩

-- The record gives what was completely appended exactly if nothing was completed after a call that
-- stopped inside a character.
theorem recovers_iff (hJ : J.Lawful) (calls : List Call) : Recovers J calls ↔
    ∀ before call after, calls = before ++ call :: after → call.CutsCharacter J →
      completedEntries after = [] := by
  constructor
  · rintro h before call after rfl hcut
    have hread := h (completedEntries (before ++ call :: after)).length
    have hmost := (entriesOn_isPrefix hJ before).length_le
    rw [read_runCalls hJ, List.flatMap_append, List.flatMap_cons, entriesOn_cut _ hcut] at hread
    have hlen := congrArg List.length hread
    simp only [completedEntries_cut before after hcut, List.length_take, List.length_reverse,
      List.length_append] at hlen
    exact List.length_eq_zero_iff.mp (by omega)
  · intro h limit
    rw [read_runCalls hJ]
    rcases exists_first_cut J calls with hclean | ⟨before, call, after, rfl, hcut, hbefore⟩
    · rw [entriesOn_completed hJ hclean]
    · rw [List.flatMap_append, List.flatMap_cons, entriesOn_cut _ hcut, entriesOn_completed hJ hbefore,
        completedEntries_cut before after hcut, h before call after rfl hcut, List.append_nil]

end Recovery

end Zbacs.Agent.Audit
