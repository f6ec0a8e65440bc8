import Zbacs.Agent.Merging
import Zbacs.Core.Container.Name
import Zbacs.Core.Utf8
import Zbacs.Lib.Lines

namespace Zbacs.Agent.Audit

open Zbacs.Lib Zbacs.Core

-- The record on disk, one line of JSON for each entry.

-- The JSON library, for entries: `to_writer` and `from_str`.
structure Json where
  toWriter : Entry → String
  fromStr : String → Option Entry

-- What is written is read again. It is one line, since control characters are escaped, and it is an
-- object: no proper beginning of it is one.
structure Json.Lawful (J : Json) : Prop where
  reads : ∀ entry, J.fromStr (J.toWriter entry) = some entry
  printable : ∀ entry, ∀ c ∈ (J.toWriter entry).toList, ' ' ≤ c
  closes : ∀ entry (part : String), part.toList <+: (J.toWriter entry).toList →
    part ≠ J.toWriter entry → J.fromStr part = none

variable (J : Json)

def object (entry : Entry) : Bytes := utf8 (J.toWriter entry)

-- What `append` writes behind the content of the file; reading the last byte of it succeeds.
def appended (entry : Entry) (file : Bytes) : Bytes := lead file ++ object J entry ++ [newline]

-- `read_line` and `from_str`, on a line that has been read.
def decodeLine (line : Bytes) : Option String := String.fromUTF8? ⟨line.toArray⟩

-- All entries, oldest first: lines up to one that is no text, without those that are no entry.
def entries (file : Bytes) : List Entry := (mapWhile decodeLine (lines file)).filterMap J.fromStr

-- The last `limit` entries, newest first; there is no file before the first append.
def read (file : Option Bytes) (limit : Nat) : List Entry :=
  match file with
  | none => []
  | some file => (entries J file).reverse.take limit

-- An append that is completed, or stops before the end of its object: before anything is written, or
-- with so many bytes of the object behind the newline that may come first.
inductive Call where
  | completed (entry : Entry)
  | interrupted (entry : Entry) (cut : Option Nat)

def piece (entry : Entry) (cut : Nat) : Bytes := (object J entry).dropLast.take cut

-- What a call leaves behind the content of the file.
def Call.written : Call → Bytes → Bytes
  | .completed entry, file => appended J entry file
  | .interrupted _ none, _ => []
  | .interrupted entry (some cut), file => lead file ++ piece J entry cut

-- The file is created when it is opened.
def Call.step (call : Call) (file : Option Bytes) : Option Bytes :=
  let content := file.getD []
  some (content ++ call.written J content)

def runCalls (calls : List Call) : Option Bytes := calls.foldl (fun file call => call.step J file) none

def Call.entry? : Call → Option Entry
  | .completed entry => some entry
  | .interrupted .. => none

-- The entries that were completely appended, oldest first.
def completedEntries (calls : List Call) : List Entry := calls.filterMap Call.entry?

-- The call stops inside a character of its object.
def Call.CutsCharacter (call : Call) : Prop :=
  ∃ entry cut, call = .interrupted entry (some cut) ∧ decodeLine (piece J entry cut) = none

-- At any limit the record gives what was completely appended.
def Recovers (calls : List Call) : Prop :=
  ∀ limit, read J (runCalls J calls) limit = (completedEntries calls).reverse.take limit

end Zbacs.Agent.Audit
