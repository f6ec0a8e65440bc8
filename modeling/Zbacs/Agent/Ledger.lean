import Mathlib.Data.List.AList
import Zbacs.Core.Types
import Zbacs.Lib.Fs
import Zbacs.Lib.Hex

namespace Zbacs.Agent

open Zbacs.Lib Zbacs.Core

-- One locked file. Ids and hashes are hexadecimal, as the record on disk has them.
structure Entry where
  fid : String
  headerHash : String
  name : String
  path : Path
  permission : Permission
  ttl : UInt64
  maxOpens : UInt16
  sealedAt : UInt64
  ver : UInt32
  ownerEnvelope : Option Bytes
  registeredTx : Option String
deriving DecidableEq

-- The record for a file just locked.
def Entry.fromSeal (fid : FileId) (headerHash : HeaderHash) (name : String) (output : Path)
    (policy : Policy) (now : UInt64) : Entry :=
  { fid := hexEncode fid.bytes
    headerHash := hexEncode headerHash.bytes
    name := name
    path := output
    permission := if policy.default = .edit then .edit else .readOnly
    ttl := policy.ttl.toUInt64
    maxOpens := policy.max
    sealedAt := now
    ver := 1
    ownerEnvelope := none
    registeredTx := none }

-- One approval this machine gave.
structure Grant where
  grantId : String
  fid : String
  fileName : String
  permission : Permission
  expiry : UInt64
  grantedAt : UInt64
  revokedAt : Option UInt64
  txHash : Option String
  revokeTx : Option String
deriving DecidableEq

def Grant.isActive (g : Grant) (now : UInt64) : Bool := g.revokedAt.isNone && decide (now < g.expiry)

-- What the file on disk holds. Every entry and every approval is under its own id.
structure Ledger where
  grantNonce : UInt64
  files : AList fun _ : String => Entry
  grants : AList fun _ : String => Grant
  chainCursor : Option UInt64
  deferredBumps : List (String × String)
  fileKeyed : ∀ key entry, files.lookup key = some entry → entry.fid = key
  grantKeyed : ∀ key grant, grants.lookup key = some grant → grant.grantId = key

inductive LedgerError where
  | unreadable
  | unwritable
  | unknownFile
  | unknownGrant
  | notNext
deriving DecidableEq, Repr

-- Whether the file can be read, and whether its replacement can be written.
structure LedgerIo where
  loads : Bool
  stores : Bool
deriving DecidableEq

def LedgerIo.sound : LedgerIo := ⟨true, true⟩

namespace Ledger

def empty : Ledger := ⟨0, ∅, ∅, none, [], by simp, by simp⟩

def putFile (l : Ledger) (entry : Entry) : Ledger :=
  { l with
    files := l.files.insert entry.fid entry
    fileKeyed := by
      intro key e he
      by_cases hkey : key = entry.fid
      · subst hkey
        rw [AList.lookup_insert] at he
        cases he
        rfl
      · rw [AList.lookup_insert_ne hkey] at he
        exact l.fileKeyed key e he }

def putGrant (l : Ledger) (grant : Grant) : Ledger :=
  { l with
    grants := l.grants.insert grant.grantId grant
    grantKeyed := by
      intro key g hg
      by_cases hkey : key = grant.grantId
      · subst hkey
        rw [AList.lookup_insert] at hg
        cases hg
        rfl
      · rw [AList.lookup_insert_ne hkey] at hg
        exact l.grantKeyed key g hg }

-- Read, change, write beside and rename: all of the change or none of it.
def update {α : Type} (io : LedgerIo) (change : Ledger → Except LedgerError (α × Ledger)) (l : Ledger) :
    Except LedgerError α × Ledger :=
  if !io.loads then (.error .unreadable, l)
  else match change l with
    | .error e => (.error e, l)
    | .ok (out, l') => if io.stores then (.ok out, l') else (.error .unwritable, l)

def record (io : LedgerIo) (entry : Entry) : Ledger → Except LedgerError Unit × Ledger :=
  update io fun l => .ok ((), l.putFile entry)

def find (io : LedgerIo) (fid : FixedBytes 32) (l : Ledger) : Option Entry :=
  if io.loads then l.files.lookup (hexEncode fid.bytes) else none

-- A recipient wrote a new version: move the record to it. The sum wraps, as it does in a
-- release build.
def advanceVersion (io : LedgerIo) (fid : FixedBytes 32) (prev next : String) (ver : UInt32)
    (ownerEnvelope : Bytes) : Ledger → Except LedgerError Entry × Ledger :=
  update io fun l => match l.files.lookup (hexEncode fid.bytes) with
    | none => .error .unknownFile
    | some entry =>
      if entry.headerHash ≠ prev ∨ ver ≠ entry.ver + 1 then .error .notNext
      else
        let entry :=
          { entry with headerHash := next, ver := ver, ownerEnvelope := some ownerEnvelope }
        .ok (entry, l.putFile entry)

def recordGrant (io : LedgerIo) (grant : Grant) : Ledger → Except LedgerError Unit × Ledger :=
  update io fun l => .ok ((), l.putGrant grant)

def grant (io : LedgerIo) (grantId : String) (l : Ledger) : Option Grant :=
  if io.loads then l.grants.lookup grantId else none

-- Mark an approval as pulled back; the first time stays.
def markRevoked (io : LedgerIo) (grantId : String) (now : UInt64) (revokeTx : Option String) :
    Ledger → Except LedgerError Grant × Ledger :=
  update io fun l => match l.grants.lookup grantId with
    | none => .error .unknownGrant
    | some grant =>
      let grant :=
        { grant with
          revokedAt := grant.revokedAt.or (some now)
          revokeTx := revokeTx.or grant.revokeTx }
      .ok (grant, l.putGrant grant)

-- The file landed on chain: keep the transaction beside the record.
def setRegisteredTx (io : LedgerIo) (fid tx : String) : Ledger → Except LedgerError Unit × Ledger :=
  update io fun l => match l.files.lookup fid with
    | none => .error .unknownFile
    | some entry => .ok ((), l.putFile { entry with registeredTx := some tx })

-- The next block chain events have not been merged from; none if it cannot be read.
def storedCursor (io : LedgerIo) (l : Ledger) : Option UInt64 := if io.loads then l.chainCursor else none

def setChainCursor (io : LedgerIo) (nextBlock : UInt64) : Ledger → Except LedgerError Unit × Ledger :=
  update io fun l => .ok ((), { l with chainCursor := some nextBlock })

-- A later version of the same file replaces the queued one.
def deferBump (io : LedgerIo) (fid headerHash : String) : Ledger → Except LedgerError Unit × Ledger :=
  update io fun l => .ok ((), { l with
    deferredBumps := (l.deferredBumps.filter fun bump => bump.1 ≠ fid) ++ [(fid, headerHash)] })

-- The queued versions, oldest first; none if they cannot be read.
def waitingBumps (io : LedgerIo) (l : Ledger) : List (String × String) :=
  if io.loads then l.deferredBumps else []

def clearDeferredBumps (io : LedgerIo) (landed : List (String × String)) :
    Ledger → Except LedgerError Unit × Ledger :=
  update io fun l => .ok ((), { l with
    deferredBumps := l.deferredBumps.filter fun bump => !landed.contains bump })

-- Written before it is handed out.
def nextGrantNonce (io : LedgerIo) : Ledger → Except LedgerError UInt64 × Ledger :=
  update io fun l => .ok (l.grantNonce, { l with grantNonce := l.grantNonce + 1 })

section

variable {l l' : Ledger} {io : LedgerIo}

theorem find_fid {fid : FixedBytes 32} {entry : Entry} (h : l.find io fid = some entry) :
    entry.fid = hexEncode fid.bytes := by
  unfold find at h
  split_ifs at h
  exact l.fileKeyed _ _ h

theorem lookup_putGrant (grant : Grant) (key : String) : (l.putGrant grant).grants.lookup key =
    if key = grant.grantId then some grant else l.grants.lookup key := by
  by_cases hkey : key = grant.grantId
  · subst hkey
    rw [if_pos rfl, putGrant, AList.lookup_insert]
  · rw [if_neg hkey, putGrant, AList.lookup_insert_ne hkey]

theorem lookup_putFile (entry : Entry) (key : String) : (l.putFile entry).files.lookup key =
    if key = entry.fid then some entry else l.files.lookup key := by
  by_cases hkey : key = entry.fid
  · subst hkey
    rw [if_pos rfl, putFile, AList.lookup_insert]
  · rw [if_neg hkey, putFile, AList.lookup_insert_ne hkey]

theorem update_eq_ok {α : Type} {change : Ledger → Except LedgerError (α × Ledger)} {out : α} :
    update io change l = (.ok out, l') ↔
      io = .sound ∧ change l = .ok (out, l') := by
  obtain ⟨loads, stores⟩ := io
  cases loads <;> cases stores <;> cases hchange : change l <;>
    simp [update, hchange, LedgerIo.sound, Prod.ext_iff]

-- A change that does not go through leaves the record as it was.
theorem update_keeps {α : Type} {change : Ledger → Except LedgerError (α × Ledger)} {e : LedgerError}
    (h : update io change l = (.error e, l')) : l' = l := by
  unfold update at h
  split at h
  · cases h
    rfl
  · split at h
    · cases h
      rfl
    · split at h <;> cases h
      rfl

-- What every change keeps, the record keeps.
theorem update_invariant {α : Type} {change : Ledger → Except LedgerError (α × Ledger)}
    (inv : Ledger → Prop) (hl : inv l) (hchange : ∀ out l', change l = .ok (out, l') → inv l') :
    inv (update io change l).2 := by
  rcases hupdate : update io change l with ⟨e | out, l'⟩
  · rw [update_keeps hupdate]
    exact hl
  · exact hchange out l' (update_eq_ok.mp hupdate).2

-- A version is taken only as the next one of the file.
theorem advanceVersion_eq_ok {fid : FixedBytes 32} {prev next : String} {ver : UInt32}
    {ownerEnvelope : Bytes} {entry : Entry} :
    advanceVersion io fid prev next ver ownerEnvelope l = (.ok entry, l') ↔
      io = .sound ∧ ∃ old, l.files.lookup (hexEncode fid.bytes) = some old ∧
        old.headerHash = prev ∧ ver = old.ver + 1 ∧
        entry = { old with headerHash := next, ver := ver, ownerEnvelope := some ownerEnvelope } ∧
        l' = l.putFile entry := by
  rw [advanceVersion, update_eq_ok]
  refine and_congr_right fun _ => ?_
  cases hold : l.files.lookup (hexEncode fid.bytes) with
  | none => simp
  | some old =>
      by_cases hnext : old.headerHash ≠ prev ∨ ver ≠ old.ver + 1
      · simp only [if_pos hnext]
        constructor
        · intro h
          cases h
        · rintro ⟨_, hold', hprev, hver, -⟩
          cases hold'
          exact absurd hnext (by simp [hprev, hver])
      · simp only [if_neg hnext]
        simp only [ne_eq, not_or, not_not] at hnext
        constructor
        · intro h
          cases h
          exact ⟨old, rfl, hnext.1, hnext.2, rfl, rfl⟩
        · rintro ⟨_, hold', -, -, rfl, rfl⟩
          cases hold'
          rfl

theorem markRevoked_eq_ok {grantId : String} {now : UInt64} {revokeTx : Option String}
    {marked : Grant} : markRevoked io grantId now revokeTx l = (.ok marked, l') ↔
      io = .sound ∧ ∃ old, l.grants.lookup grantId = some old ∧
        marked = { old with
          revokedAt := old.revokedAt.or (some now), revokeTx := revokeTx.or old.revokeTx } ∧
        l' = l.putGrant marked := by
  rw [markRevoked, update_eq_ok]
  refine and_congr_right fun _ => ?_
  cases hold : l.grants.lookup grantId with
  | none => simp
  | some old =>
      constructor
      · intro h
        cases h
        exact ⟨old, rfl, rfl, rfl⟩
      · rintro ⟨_, hold', rfl, rfl⟩
        cases hold'
        rfl

end

end Ledger

end Zbacs.Agent
