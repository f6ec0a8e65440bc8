import Zbacs.Agent.AuditLog
import Zbacs.Agent.Sealing.Names
import Zbacs.Onchain.Writer
import Zbacs.Session.Workspace

namespace Zbacs.Agent

open Zbacs.Lib Zbacs.Core Zbacs.Proto Zbacs.Session Zbacs.Agent.Setup

-- The command behind the lock screen: the container, the record of it, and the public record.

-- `Entry::from_seal`
def Entry.ofSeal (result : SealResult) (request : SealRequest) (now : UInt64) : Entry :=
  let policy := request.policy
  { fid := result.fid
    headerHash := result.headerHash
    name := fileName result.original
    path := result.output
    permission := if policy.default = .edit then .edit else .readOnly
    ttl := policy.ttl.toUInt64
    maxOpens := policy.max
    sealedAt := now
    ver := 1
    ownerEnvelope := none
    registeredTx := none }

-- The record keeps permissions as words.
def permissionWord : Permission → String
  | .edit => "edit"
  | _ => "read_only"

-- The line of the audit log for a file just locked.
def sealedLine (fid : FixedBytes 32) (entry : Entry) (now : UInt64) : Audit.Entry where
  time := now
  kind := .sealed
  role := .owner
  source := .agent
  fid := hexEncode fid.bytes
  fileName := some entry.name
  detail := some (permissionWord entry.permission)

-- What the node says to a batch that registers a file, and how the ledger's file behaves around it.
structure RegisterEnv where
  submit : List Onchain.Call → Except ChainError (FixedBytes 32)
  readIo : LedgerIo
  clearIo : LedgerIo
  noteIo : LedgerIo

-- Queued versions go out in front of the registration.
def registerBatch (waiting : List (String × String)) (fid headerHash : FixedBytes 32) :
    List Onchain.Call :=
  (waiting.filterMap fun bump => do
    let fid ← hexDecodeTo 32 bump.1
    let headerHash ← hexDecodeTo 32 bump.2
    return .bumpVersion fid headerHash) ++ [.register fid headerHash]

-- `ChainLink::write`, for a registration.
def ChainLink.register (link : ChainLink) (env : RegisterEnv) (fid headerHash : FixedBytes 32)
    (l : Ledger) : Except ChainError (FixedBytes 32) × Ledger :=
  if !link.writes then (.error (.config "no writer"), l)
  else
    let waiting := l.waitingBumps env.readIo
    match env.submit (registerBatch waiting fid headerHash) with
    | .error e => (.error e, l)
    | .ok tx => (.ok tx, if waiting = [] then l else (l.clearDeferredBumps env.clearIo waiting).2)

-- Put the file on the public record. A failure is reported, and never undoes the lock.
def registerOnChain (link : ChainLink) (env : RegisterEnv) (result : SealResult) (l : Ledger) :
    Except SealProblem SealResult × Ledger :=
  if !link.writes then (.error .failed, l)
  else match hexDecodeTo 32 result.fid, hexDecodeTo 32 result.headerHash with
    | some fid, some headerHash => match link.register env fid headerHash l with
      | (.error _, l) => (.error .failed, l)
      | (.ok tx, l) =>
        let txHex := hexEncode tx.bytes
        (.ok { result with
            pending := result.pending.filter (· ≠ .chainRegistration)
            txHash := some txHex },
          (l.setRegisteredTx env.noteIo result.fid txHex).2)
    | _, _ => (.error .failed, l)

-- What a call meets, besides the seal: the clock, the record's file, and the link to the chain.
structure SealFileEnv where
  run : SealRun
  now : UInt64
  recordIo : LedgerIo
  link : Option ChainLink
  chain : RegisterEnv

-- `noted`: what goes to the audit log.
structure SealFileStep where
  result : Except SealProblem SealResult
  fs : Fs
  ledger : Ledger
  noted : List Audit.Entry

section

variable (P : Primitives) (owner : OwnerKeys P) (profile : DeviceProfile) (request : SealRequest)
  (env : SealFileEnv) (fs : Fs) (l : Ledger)

-- `seal_file`, on a machine that is set up.
def sealFile : SealFileStep :=
  match sealNow P owner profile request env.run fs with
  | (.error e, fs) => ⟨.error e, fs, l, []⟩
  | (.ok result, fs) =>
    let entry := Entry.ofSeal result request env.now
    -- a record that cannot be written is only warned about
    let l := (l.record env.recordIo entry).2
    let noted := (hexDecodeTo 32 result.fid).toList.map (sealedLine · entry env.now)
    match env.link.filter (·.writes) with
    | none => ⟨.ok result, fs, l, noted⟩
    | some link => match registerOnChain link env.chain result l with
      | (.error _, l) => ⟨.ok result, fs, l, noted⟩
      | (.ok result, l) => ⟨.ok result, fs, l, noted⟩

end

inductive ShredProblem where
  | noLockedCopy
  | failed
deriving DecidableEq, Repr

-- Erase the original, overwriting it first. Only beside a locked copy.
def shredOriginal (path : Path) (outcome : Deletion) (fs : Fs) : Except ShredProblem Unit × Fs :=
  if !fs.exists? (sealedPath path) then (.error .noLockedCopy, fs)
  else match Workspace.secureDelete outcome path fs with
    | (.error _, fs) => (.error .failed, fs)
    | (.ok (), fs) => (.ok (), fs)

section

variable {P : Primitives} {owner : OwnerKeys P} {profile : DeviceProfile} {request : SealRequest}
  {run : SealRun} {fs fs' : Fs} {result : SealResult}

-- Only a file with something in it is locked, and only where nothing stands yet.
theorem examine_ok {readable : Bool} {path : Path} (h : (examine readable path fs).ok = true) :
    (∃ content readonly, fs.lookup path = some (.file content readonly) ∧ content ≠ []) ∧
      fs.lookup (sealedPath path) = none := by
  unfold examine Candidate.ok at h
  split at h
  · cases h
  · split at h
    · cases h
    · cases h
    · rename_i content readonly hthere
      simp only [Option.isNone_iff_eq_none] at h
      split_ifs at h with hext hempty hout
      exact ⟨⟨content, readonly, hthere, hempty⟩, by simpa using hout⟩

-- What a lock reports is what it wrote: the container reads back under this id and hash, and the
-- original is what was sealed.
structure LockedAs (P : Primitives) (owner : OwnerKeys P) (profile : DeviceProfile)
    (request : SealRequest) (run : SealRun) (fs fs' : Fs) (result : SealResult) (content : Bytes)
    (header : Header) (container headerBytes frames : Bytes) : Prop where
  wrote : (writeLocked P owner profile request run fs).1 = .ok header
  original : fs.readFile request.path = some content
  short : content.length < 2 ^ 64
  sealed : SealedAs P content owner.sealing.x25519Pk owner.signing (sealOpts profile request) run.rng
    header container headerBytes frames
  written : fs'.readFile (sealedPath request.path) = some container
  room : fs.lookup (sealedPath request.path) = none
  others : ∀ q, q ≠ sealedPath request.path → q ≠ withExtension (sealedPath request.path) "zbacs.tmp" →
    fs'.lookup q = fs.lookup q
  result_eq : result =
    { output := sealedPath request.path
      outputName := fileName (sealedPath request.path)
      original := request.path
      size := container.length
      pending := [.chainRegistration]
      fid := hexEncode header.body.fid.bytes
      headerHash := hexEncode (P.sha256 headerBytes).bytes
      txHash := none }

theorem sealNow_eq_ok (hP : P.Lawful)
    (h : sealNow P owner profile request run fs = (.ok result, fs')) :
    ∃ content header container headerBytes frames,
      LockedAs P owner profile request run fs fs' result content header container headerBytes frames := by
  unfold sealNow at h
  rcases hwrite : writeLocked P owner profile request run fs with ⟨e | header, fs₁⟩
  · rw [hwrite] at h
    cases h
  have hwrote := congrArg Prod.fst hwrite
  rw [hwrite] at h
  unfold writeLocked at hwrite
  simp only at hwrite
  split at hwrite
  · cases hwrite
  rename_i hexamined
  split at hwrite
  · cases hwrite
  rename_i header' fs₂ hseal
  cases hwrite
  obtain ⟨content, container, headerBytes, frames, hcontent, hshort, s, hthere⟩ :=
    sealSignedToPath_eq_ok hseal
  have hopts := sealOpts_sealable (P := P) profile s.name_eq.1
  simp only [hthere, s.inspect_eq hP hopts.withinLimits] at h
  obtain ⟨hresult, rfl⟩ := Prod.mk.inj h
  refine ⟨content, header, container, headerBytes, frames, hwrote, hcontent, hshort, s, hthere,
    (examine_ok (by simpa using hexamined)).2, fun q hout htmp => ?_, (Except.ok.inj hresult).symm⟩
  exact (congrArg (·.2.lookup q) hseal).symm.trans (lookup_sealSignedToPath _ _ _ _ hout htmp)

end

namespace Reference

theorem lockable : Lockable "a.txt" := by
  have hchars : "a.txt".toList.all (fun c => c ≠ '/' ∧ c.toNat ≠ 0) = true := by decide
  refine ⟨⟨by decide, by decide, fun c hc => ?_⟩, by decide, by decide⟩
  exact of_decide_eq_true (List.all_eq_true.mp hchars c hc)

end Reference

end Zbacs.Agent
