import Zbacs.Agent.Approve.Theorems

namespace Zbacs.Agent

open Zbacs.Lib Zbacs.Core

-- Pulling an approval back once more, with the batches that the chain's writer is handed.

structure RevokeRun where
  result : Except RevokeProblem Grant
  ledger : Ledger
  submitted : List (List Call)

def ChainLink.batches (link : ChainLink) (env : ChainEnv) (call : Call) (l : Ledger) : List (List Call) :=
  if link.writes then [(l.waitingBumps env.readIo).filterMap decodeBump ++ [call]] else []

def revokeBatches (env : RevokeEnv) (grant : Grant) (fid id : FixedBytes 32) (l : Ledger) :
    List (List Call) :=
  match env.link.filter (·.writes), grant.txHash with
  | some link, some _ => link.batches env.chain (.revoke fid id) l
  | _, _ => []

def revokeRun (grantId : String) (env : RevokeEnv) (l : Ledger) : RevokeRun :=
  match l.grant env.readIo grantId with
  | none => ⟨.error .unknownGrant, l, []⟩
  | some grant => match hexDecodeTo 32 grant.grantId, hexDecodeTo 32 grant.fid with
    | some id, some fid => match env.relay with
      | .error _ => ⟨.error .relayUnreachable, l, []⟩
      | .ok () =>
        let submitted := revokeBatches env grant fid id l
        let (revokeTx, l) := writeRevoke env grant fid id l
        match l.markRevoked env.markIo grantId env.now revokeTx with
        | (.error _, l) => ⟨.error .unknownGrant, l, submitted⟩
        | (.ok marked, l) => ⟨.ok marked, l, submitted⟩
    | _, _ => ⟨.error .unknownGrant, l, []⟩

-- The chain's writer was handed the revocation, and the ledger marks the approval.
structure PulledBack (grant : Grant) (run : RevokeRun) : Prop where
  submitted : ∃ id fid, hexDecodeTo 32 grant.grantId = some id ∧ hexDecodeTo 32 grant.fid = some fid ∧
    ∃ batch ∈ run.submitted, .revoke fid id ∈ batch
  marked : ∃ g, run.ledger.grants.lookup grant.grantId = some g ∧ g.revokedAt.isSome = true

-- Neither the relay nor the chain took it.
def NeitherTook (env : RevokeEnv) (run : RevokeRun) : Prop :=
  env.relay ≠ .ok () ∧ ∀ batch ∈ run.submitted, ∃ e, env.chain.submit batch = .error e

section

variable {grantId : String} {env : RevokeEnv} {l : Ledger} {grant : Grant}

theorem revokeRun_eq :
    ((revokeRun grantId env l).result, (revokeRun grantId env l).ledger) = revokeNow grantId env l := by
  unfold revokeRun revokeNow
  rcases l.grant env.readIo grantId with _ | grant
  · rfl
  · dsimp only
    rcases hexDecodeTo 32 grant.grantId with _ | id <;> rcases hexDecodeTo 32 grant.fid with _ | fid
    · rfl
    · rfl
    · rfl
    · rcases env.relay with e | _
      · rfl
      · dsimp only
        rcases writeRevoke env grant fid id l with ⟨revokeTx, l₁⟩
        rcases l₁.markRevoked env.markIo grantId env.now revokeTx with ⟨e | marked, l₂⟩ <;> rfl

-- Whatever the relay says but yes ends it at once.
theorem revokeRun_of_relay (h : env.relay ≠ .ok ()) :
    (revokeRun grantId env l).ledger = l ∧ (revokeRun grantId env l).submitted = [] ∧
      ∃ e, (revokeRun grantId env l).result = .error e := by
  unfold revokeRun
  split
  · exact ⟨rfl, rfl, _, rfl⟩
  · split
    · split
      · exact ⟨rfl, rfl, _, rfl⟩
      · exact absurd ‹_› h
    · exact ⟨rfl, rfl, _, rfl⟩

-- With the relay's yes it goes on to the chain and to the ledger.
theorem revokeRun_of_ok {id fid : FixedBytes 32} (hgrant : l.grant env.readIo grantId = some grant)
    (hid : hexDecodeTo 32 grant.grantId = some id) (hfid : hexDecodeTo 32 grant.fid = some fid)
    (hrelay : env.relay = .ok ()) :
    (revokeRun grantId env l).submitted = revokeBatches env grant fid id l ∧
      (revokeRun grantId env l).ledger = ((writeRevoke env grant fid id l).2.markRevoked env.markIo grantId
        env.now (writeRevoke env grant fid id l).1).2 := by
  simp only [revokeRun, hgrant, hid, hfid, hrelay]
  rcases writeRevoke env grant fid id l with ⟨revokeTx, l₁⟩
  rcases l₁.markRevoked env.markIo grantId env.now revokeTx with ⟨e | marked, l₂⟩ <;> exact ⟨rfl, rfl⟩

-- A grant that is on the chain is revoked there with a batch of its own.
theorem revoke_mem_batches {link : ChainLink} {id fid : FixedBytes 32} (hlink : env.link = some link)
    (hwrites : link.writes = true) (htx : grant.txHash.isSome = true) :
    ∃ batch ∈ revokeBatches env grant fid id l, .revoke fid id ∈ batch := by
  obtain ⟨tx, htx⟩ := Option.isSome_iff_exists.mp htx
  have hfilter : env.link.filter (·.writes) = some link := by simp [hlink, hwrites]
  simp [revokeBatches, hfilter, htx, ChainLink.batches, hwrites]

-- The ledger marks the approval after the attempt if it could be written, or marked it before.
theorem markRevoked_marks {io : LedgerIo} {now : UInt64} {revokeTx : Option String}
    (hgrant : l.grants.lookup grantId = some grant) :
    (∃ g, (l.markRevoked io grantId now revokeTx).2.grants.lookup grantId = some g ∧
      g.revokedAt.isSome = true) ↔ io = .sound ∨ grant.revokedAt.isSome = true := by
  rcases hmark : l.markRevoked io grantId now revokeTx with ⟨e | marked, l'⟩
  · have hio : io ≠ .sound := by
      rintro rfl
      have hmarked := (@Ledger.markRevoked_eq_ok l _ .sound grantId now revokeTx _).mpr
        ⟨rfl, grant, hgrant, rfl, rfl⟩
      rw [hmark] at hmarked
      cases hmarked
    rw [Ledger.update_keeps hmark, hgrant]
    simp [hio]
  · obtain ⟨rfl, old, hold, rfl, rfl⟩ := Ledger.markRevoked_eq_ok.mp hmark
    have hkeyed : old.grantId = grantId := l.grantKeyed _ _ hold
    simp [Ledger.lookup_putGrant, hkeyed]

end

-- An approval that is on the chain, and a link with a writer: the chain is told and the ledger
-- marked if and only if the relay took the revoke, the ledger could be read, and written unless
-- the approval was marked before, and the two ids in it are ids. If neither took it nothing is
-- changed and an error comes back.
theorem pulledBack_revokeRun_iff (l : Ledger) (grantId : String) (grant : Grant) (env : RevokeEnv)
    (link : ChainLink) (hgrant : l.grants.lookup grantId = some grant) (htx : grant.txHash.isSome = true)
    (hlink : env.link = some link) (hwrites : link.writes = true) :
    (PulledBack grant (revokeRun grantId env l) ∧
      (NeitherTook env (revokeRun grantId env l) → (revokeRun grantId env l).ledger = l ∧
        ∃ e, (revokeRun grantId env l).result = .error e)) ↔
    env.relay = .ok () ∧ env.readIo.loads = true ∧
      (env.markIo = .sound ∨ grant.revokedAt.isSome = true) ∧
      (hexDecodeTo 32 grant.grantId).isSome = true ∧ (hexDecodeTo 32 grant.fid).isSome = true := by
  have hkeyed : grant.grantId = grantId := l.grantKeyed _ _ hgrant
  constructor
  · rintro ⟨⟨⟨id, fid, hid, hfid, batch, hbatch, -⟩, hmarked⟩, -⟩
    have hrelay : env.relay = .ok () := by
      by_contra hrelay
      rw [(revokeRun_of_relay hrelay).2.1] at hbatch
      cases hbatch
    have hloads : env.readIo.loads = true := by
      by_contra hloads
      have hnone : l.grant env.readIo grantId = none := if_neg hloads
      simp [revokeRun, hnone] at hbatch
    have hread : l.grant env.readIo grantId = some grant := by rw [Ledger.grant, if_pos hloads, hgrant]
    have hkeeps := writeRevoke_keeps (l := l) env grant fid id
    rw [(revokeRun_of_ok hread hid hfid hrelay).2, hkeyed,
      markRevoked_marks (hkeeps.symm ▸ hgrant)] at hmarked
    exact ⟨hrelay, hloads, hmarked, Option.isSome_of_eq_some hid, Option.isSome_of_eq_some hfid⟩
  · rintro ⟨hrelay, hloads, hmark, hid, hfid⟩
    obtain ⟨id, hid⟩ := Option.isSome_iff_exists.mp hid
    obtain ⟨fid, hfid⟩ := Option.isSome_iff_exists.mp hfid
    have hread : l.grant env.readIo grantId = some grant := by rw [Ledger.grant, if_pos hloads, hgrant]
    have hkeeps := writeRevoke_keeps (l := l) env grant fid id
    obtain ⟨hsubmitted, hledger⟩ := revokeRun_of_ok hread hid hfid hrelay
    refine ⟨⟨⟨id, fid, hid, hfid, ?_⟩, ?_⟩, fun hneither => absurd hrelay hneither.1⟩
    · rw [hsubmitted]
      exact revoke_mem_batches hlink hwrites htx
    · rw [hledger, hkeyed, markRevoked_marks (hkeeps.symm ▸ hgrant)]
      exact hmark

namespace Reference

-- An approval that is on the chain, and a machine that can write there.
def onChain : Grant where
  grantId := hexEncode (FixedBytes.replicate 32 1).bytes
  fid := hexEncode (FixedBytes.replicate 32 2).bytes
  fileName := "a.txt"
  permission := .readOnly
  expiry := 5000
  grantedAt := 1000
  revokedAt := none
  txHash := some "aa"
  revokeTx := none

def withGrant : Ledger := Ledger.empty.putGrant onChain

def pullingBack (relay : Except ClientError Unit) : RevokeEnv where
  now := 2000
  relay := relay
  link := some ⟨true, false, false⟩
  chain := ⟨fun _ => .ok (.replicate 32 3), .sound, .sound⟩
  readIo := .sound
  markIo := .sound

theorem withGrant_onChain : withGrant.grants.lookup onChain.grantId = some onChain := by
  rw [withGrant, Ledger.lookup_putGrant, if_pos rfl]

theorem pulledBack_relayed : PulledBack onChain (revokeRun onChain.grantId (pullingBack (.ok ())) withGrant) :=
  ((pulledBack_revokeRun_iff withGrant onChain.grantId onChain (pullingBack (.ok ())) ⟨true, false, false⟩
    withGrant_onChain rfl rfl rfl).mpr ⟨rfl, rfl, .inl rfl,
      by rw [onChain, hexDecodeTo_hexEncode]; rfl, by rw [onChain, hexDecodeTo_hexEncode]; rfl⟩).1

-- The relay is out of reach: the chain is not told, and the ledger goes on counting the approval.
theorem not_pulledBack : ¬ PulledBack onChain
    (revokeRun onChain.grantId (pullingBack (.error .unreachable)) withGrant) := by
  rintro ⟨⟨-, -, -, -, batch, hbatch, -⟩, -⟩
  rw [(revokeRun_of_relay (by simp [pullingBack])).2.1] at hbatch
  cases hbatch

end Reference

end Zbacs.Agent
