import Zbacs.Agent.Ledger
import Zbacs.Lib.Trace

namespace Zbacs.Agent

open Zbacs.Lib

-- The ledger over its whole life: every operation that changes it, in any order, with the file
-- failing to be read or replaced at any of them. A `Ledger` that is opened anew on the same path
-- goes on from the file, which is all there is.

inductive LedgerOp where
  | record (entry : Entry)
  | advanceVersion (fid : FixedBytes 32) (prev next : String) (ver : UInt32) (ownerEnvelope : Bytes)
  | recordGrant (grant : Grant)
  | markRevoked (grantId : String) (now : UInt64) (revokeTx : Option String)
  | setRegisteredTx (fid tx : String)
  | setChainCursor (nextBlock : UInt64)
  | deferBump (fid headerHash : String)
  | clearDeferredBumps (landed : List (String × String))
  | nextGrantNonce
deriving DecidableEq

structure LedgerCall where
  io : LedgerIo
  op : LedgerOp
deriving DecidableEq

inductive LedgerOut where
  | done
  | entry (entry : Entry)
  | grant (grant : Grant)
  | nonce (n : UInt64)
deriving DecidableEq

namespace Ledger

def step (l : Ledger) (call : LedgerCall) : Except LedgerError LedgerOut × Ledger :=
  match call.op with
  | .record entry => (l.record call.io entry).map (·.map fun _ => .done) id
  | .advanceVersion fid prev next ver ownerEnvelope =>
      (l.advanceVersion call.io fid prev next ver ownerEnvelope).map (·.map .entry) id
  | .recordGrant grant => (l.recordGrant call.io grant).map (·.map fun _ => .done) id
  | .markRevoked grantId now revokeTx =>
      (l.markRevoked call.io grantId now revokeTx).map (·.map .grant) id
  | .setRegisteredTx fid tx => (l.setRegisteredTx call.io fid tx).map (·.map fun _ => .done) id
  | .setChainCursor nextBlock => (l.setChainCursor call.io nextBlock).map (·.map fun _ => .done) id
  | .deferBump fid headerHash => (l.deferBump call.io fid headerHash).map (·.map fun _ => .done) id
  | .clearDeferredBumps landed => (l.clearDeferredBumps call.io landed).map (·.map fun _ => .done) id
  | .nextGrantNonce => (l.nextGrantNonce call.io).map (·.map .nonce) id

-- What an operation that goes through does.
inductive Does : LedgerOp → Ledger → LedgerOut → Ledger → Prop where
  | recorded (entry : Entry) (l : Ledger) : Does (.record entry) l .done (l.putFile entry)
  | advanced {fid : FixedBytes 32} {next : String} {ver : UInt32} {ownerEnvelope : Bytes} {old : Entry}
      {l : Ledger} (hold : l.files.lookup (hexEncode fid.bytes) = some old) (hver : ver = old.ver + 1) :
      Does (.advanceVersion fid old.headerHash next ver ownerEnvelope) l
        (.entry { old with headerHash := next, ver := ver, ownerEnvelope := some ownerEnvelope })
        (l.putFile { old with headerHash := next, ver := ver, ownerEnvelope := some ownerEnvelope })
  | granted (grant : Grant) (l : Ledger) : Does (.recordGrant grant) l .done (l.putGrant grant)
  | revoked {grantId : String} {now : UInt64} {revokeTx : Option String} {old : Grant} {l : Ledger}
      (hold : l.grants.lookup grantId = some old) : Does (.markRevoked grantId now revokeTx) l
        (.grant { old with
          revokedAt := old.revokedAt.or (some now), revokeTx := revokeTx.or old.revokeTx })
        (l.putGrant { old with
          revokedAt := old.revokedAt.or (some now), revokeTx := revokeTx.or old.revokeTx })
  | registered {fid tx : String} {old : Entry} {l : Ledger} (hold : l.files.lookup fid = some old) :
      Does (.setRegisteredTx fid tx) l .done (l.putFile { old with registeredTx := some tx })
  | merged (nextBlock : UInt64) (l : Ledger) :
      Does (.setChainCursor nextBlock) l .done { l with chainCursor := some nextBlock }
  | deferred (fid headerHash : String) (l : Ledger) : Does (.deferBump fid headerHash) l .done { l with
      deferredBumps := (l.deferredBumps.filter fun bump => bump.1 ≠ fid) ++ [(fid, headerHash)] }
  | cleared (landed : List (String × String)) (l : Ledger) :
      Does (.clearDeferredBumps landed) l .done { l with
        deferredBumps := l.deferredBumps.filter fun bump => !landed.contains bump }
  | numbered (l : Ledger) :
      Does .nextGrantNonce l (.nonce l.grantNonce) { l with grantNonce := l.grantNonce + 1 }

section Step

variable {l : Ledger} {io : LedgerIo}

-- The answer of an operation in the terms of all of them.
theorem answer_cases {α : Type} {op : LedgerOp} (x : Except LedgerError α × Ledger)
    (wrap : α → LedgerOut) (hkeeps : ∀ e l', x = (.error e, l') → l' = l)
    (hdoes : ∀ out l', x = (.ok out, l') → io = .sound ∧ Does op l (wrap out) l') :
    (∃ e, x.map (·.map wrap) id = (.error e, l)) ∨
      ∃ out l', io = .sound ∧ Does op l out l' ∧ x.map (·.map wrap) id = (.ok out, l') := by
  rcases x with ⟨e | out, l'⟩
  · obtain rfl := hkeeps e l' rfl
    exact .inl ⟨e, rfl⟩
  · obtain ⟨hio, h⟩ := hdoes out l' rfl
    exact .inr ⟨wrap out, l', hio, h, rfl⟩

-- An operation fails and leaves the ledger alone, or it does what it is for.
theorem step_cases (l : Ledger) (call : LedgerCall) :
    (∃ e, l.step call = (.error e, l)) ∨
      ∃ out l', call.io = .sound ∧ Does call.op l out l' ∧ l.step call = (.ok out, l') := by
  obtain ⟨io, op⟩ := call
  cases op with
  | record entry =>
      refine answer_cases (l.record io entry) _ (fun _ _ => update_keeps) fun out l' h => ?_
      obtain ⟨hio, hchange⟩ := update_eq_ok.mp h
      cases hchange
      exact ⟨hio, .recorded entry l⟩
  | advanceVersion fid prev next ver ownerEnvelope =>
      refine answer_cases (l.advanceVersion io fid prev next ver ownerEnvelope) _ (fun _ _ => update_keeps)
        fun out l' h => ?_
      obtain ⟨hio, old, hold, rfl, hver, rfl, rfl⟩ := advanceVersion_eq_ok.mp h
      exact ⟨hio, .advanced hold hver⟩
  | recordGrant grant =>
      refine answer_cases (l.recordGrant io grant) _ (fun _ _ => update_keeps) fun out l' h => ?_
      obtain ⟨hio, hchange⟩ := update_eq_ok.mp h
      cases hchange
      exact ⟨hio, .granted grant l⟩
  | markRevoked grantId now revokeTx =>
      refine answer_cases (l.markRevoked io grantId now revokeTx) _ (fun _ _ => update_keeps)
        fun out l' h => ?_
      obtain ⟨hio, old, hold, rfl, rfl⟩ := markRevoked_eq_ok.mp h
      exact ⟨hio, .revoked hold⟩
  | setRegisteredTx fid tx =>
      refine answer_cases (l.setRegisteredTx io fid tx) _ (fun _ _ => update_keeps) fun out l' h => ?_
      obtain ⟨hio, hchange⟩ := update_eq_ok.mp h
      cases hold : l.files.lookup fid with
      | none => simp [hold] at hchange
      | some old =>
          simp only [hold] at hchange
          cases hchange
          exact ⟨hio, .registered hold⟩
  | setChainCursor nextBlock =>
      refine answer_cases (l.setChainCursor io nextBlock) _ (fun _ _ => update_keeps) fun out l' h => ?_
      obtain ⟨hio, hchange⟩ := update_eq_ok.mp h
      cases hchange
      exact ⟨hio, .merged nextBlock l⟩
  | deferBump fid headerHash =>
      refine answer_cases (l.deferBump io fid headerHash) _ (fun _ _ => update_keeps) fun out l' h => ?_
      obtain ⟨hio, hchange⟩ := update_eq_ok.mp h
      cases hchange
      exact ⟨hio, .deferred fid headerHash l⟩
  | clearDeferredBumps landed =>
      refine answer_cases (l.clearDeferredBumps io landed) _ (fun _ _ => update_keeps) fun out l' h => ?_
      obtain ⟨hio, hchange⟩ := update_eq_ok.mp h
      cases hchange
      exact ⟨hio, .cleared landed l⟩
  | nextGrantNonce =>
      refine answer_cases (l.nextGrantNonce io) _ (fun _ _ => update_keeps) fun out l' h => ?_
      obtain ⟨hio, hchange⟩ := update_eq_ok.mp h
      cases hchange
      exact ⟨hio, .numbered l⟩

theorem step_error {e : LedgerError} {l' : Ledger} {call : LedgerCall} (h : l.step call = (.error e, l')) :
    l' = l := by
  obtain ⟨e', h'⟩ | ⟨out, l'', -, -, h'⟩ := step_cases l call
  · exact congrArg Prod.snd (h.symm.trans h')
  · exact absurd (congrArg Prod.fst (h.symm.trans h')) (by simp)

end Step

end Ledger

end Zbacs.Agent
