import Zbacs.Agent.AuditLog.Torn
import Zbacs.Lib.Json

namespace Zbacs.Agent.Audit

open Zbacs.Lib Zbacs.Lib.Json Zbacs.Core

-- The lines of the record as the JSON library writes them, and a reader of exactly these.

section Names

def Kind.asStr : Kind → String
  | sealed => "sealed"
  | requested => "requested"
  | granted => "granted"
  | denied => "denied"
  | revoked => "revoked"
  | opened => "opened"
  | expired => "expired"
  | failed => "failed"

def Kind.ofStr? : String → Option Kind
  | "sealed" => some sealed
  | "requested" => some requested
  | "granted" => some granted
  | "denied" => some denied
  | "revoked" => some revoked
  | "opened" => some opened
  | "expired" => some expired
  | "failed" => some failed
  | _ => none

def Role.asStr : Role → String
  | owner => "owner"
  | recipient => "recipient"

def Role.ofStr? : String → Option Role
  | "owner" => some owner
  | "recipient" => some recipient
  | _ => none

def Source.asStr : Source → String
  | agent => "local"
  | chain => "chain"

def Source.ofStr? : String → Option Source
  | "local" => some agent
  | "chain" => some chain
  | _ => none

end Names

def kindForm : Form Kind := Json.string.refine Kind.ofStr? Kind.asStr fun k => by cases k <;> rfl

def roleForm : Form Role := Json.string.refine Role.ofStr? Role.asStr fun r => by cases r <;> rfl

def sourceForm : Form Source := Json.string.refine Source.ofStr? Source.asStr fun s => by cases s <;> rfl

-- `u64`, and the comma behind it.
def timeForm : Form UInt64 :=
  (Form.number ',' (by decide)).refine (fun n => if n < 2 ^ 64 then some n.toUInt64 else none)
    UInt64.toNat fun n => by simp [n.toNat_lt]

abbrev Fields := UInt64 × Kind × Role × Source × String × Option String × Option String

def fieldsForm : Form Fields :=
  timeForm.pair <| (kindForm.around "\"kind\":" "," (by decide) (by decide)).pair <|
    (roleForm.around "\"role\":" "," (by decide) (by decide)).pair <|
    (sourceForm.around "\"source\":" "," (by decide) (by decide)).pair <|
    (Json.string.around "\"fid\":" "," (by decide) (by decide)).pair <|
    (optString.around "\"file_name\":" "," (by decide) (by decide)).pair
    (optString.around "\"detail\":" "\x7d" (by decide) (by decide))

def entryForm : Form Entry :=
  (fieldsForm.around "\x7b\"at\":" "" (by decide) isPrintable_nothing).refine
    (fun (time, kind, role, source, fid, fileName, detail) =>
      some ⟨time, kind, role, source, fid, fileName, detail⟩)
    (fun e => (e.time, e.kind, e.role, e.source, e.fid, e.fileName, e.detail)) fun _ => rfl

-- All of the text is the entry.
def json : Json where
  toWriter entry := String.ofList (entryForm.put entry)
  fromStr text := match entryForm.get text.toList with
    | some (entry, []) => some entry
    | _ => none

theorem json_lawful : json.Lawful where
  reads entry := by
    have hget := entryForm.get_put entry []
    rw [List.append_nil] at hget
    simp only [json, String.toList_ofList, hget]
  printable entry := by
    rw [json, String.toList_ofList]
    exact entryForm.printable entry
  closes entry part hpart hne := by
    obtain ⟨more, hmore⟩ := hpart
    dsimp only [json] at hmore hne ⊢
    rw [String.toList_ofList] at hmore
    split
    · rename_i entry' hget
      have hwhole := entryForm.get_put entry []
      rw [List.append_nil, ← hmore, entryForm.get_append more hget] at hwhole
      cases hwhole
      rw [List.append_nil] at hmore
      exact absurd (by rw [← hmore, String.ofList_toList]) hne
    · rfl

-- A file of which the name has one letter of two bytes.
def locked : Entry := ⟨100, .sealed, .owner, .agent, "01", some "é", none⟩

-- An append that stops behind the name of a field.
def tornField : List Call := [.completed locked, .interrupted locked (some 30), .completed locked]

theorem tornField_recovers : Recovers json tornField := by
  have htext : decodeLine (piece json locked 30) ≠ none := by decide +kernel
  refine (recovers_iff json_lawful tornField).mpr ?_
  rintro before call after hsplit ⟨entry, cut, rfl, hcut⟩
  have hmem : Call.interrupted entry (some cut) ∈ tornField := by
    rw [hsplit]
    exact List.mem_append_right _ List.mem_cons_self
  simp only [tornField, List.mem_cons, reduceCtorEq, Call.interrupted.injEq, Option.some.injEq,
    List.not_mem_nil, or_false, false_or] at hmem
  obtain ⟨rfl, rfl⟩ := hmem
  exact absurd hcut htext

-- An append that stops between the two bytes of the letter.
def tornLetter : List Call := [.interrupted locked (some 83), .completed locked]

-- The entry after it is not given.
theorem not_recovers : ¬∀ calls, Recovers json calls := by
  intro h
  have hcut : decodeLine (piece json locked 83) = none := by decide +kernel
  have hread := h tornLetter 1
  rw [read_runCalls json_lawful, tornLetter, List.flatMap_cons, ← List.nil_append (Call.lines _ _ ++ _),
    entriesOn_cut [] ⟨locked, 83, rfl, hcut⟩] at hread
  cases hread

end Zbacs.Agent.Audit
