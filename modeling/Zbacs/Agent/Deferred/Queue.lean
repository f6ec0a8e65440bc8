import Zbacs.Agent.Deferred

namespace Zbacs.Agent

open Zbacs.Lib Zbacs.Core Zbacs.Proto

-- Whether the queue is what has not landed.

-- The newest version of a file among those queued by these tasks.
def Defer.newer (fid : String) (x : Defer) : Option String :=
  if x.io = .sound ∧ x.fid = fid then some x.headerHash else none

def newest (defers : List Defer) (fid : String) : Option String :=
  (defers.filterMap (Defer.newer fid)).getLast?

namespace Tap

variable (d : Contracts.Deployment) (owner : Contracts.Address) (env : Tap) (call : Call) (l : Ledger)
  (s : Onchain.State)

def waiting : List (String × String) := (l.deferAll env.early).waitingBumps env.readIo

-- In the queue before the call, or queued while it is going on.
def Queued (bump : String × String) : Prop :=
  bump ∈ l.deferredBumps ∨
    ∃ x ∈ env.early ++ env.meanwhile ++ env.late, x.io = .sound ∧ (x.fid, x.headerHash) = bump

-- The writer hears that everything it sent is in a block, and of an operation, that it succeeded.
def Confirmed : Prop :=
  match env.carriage with
  | none => False
  | some (.direct passage) => ∀ i < (batchOf (env.waiting l) call).length, (passage i).Delivered
  | some (.account op) => op.prepared = .ok () ∧ (∃ tx, op.receipt = .ok tx) ∧
      (op.mine d owner ((batchOf (env.waiting l) call).map Onchain.Call.targetAndData) s.world).1 =
        some true

-- The chain when the call returns.
def after : Onchain.World :=
  let batch := batchOf (env.waiting l) call
  let w := match env.carriage with
    | none => s.world
    | some (.direct passage) =>
        Onchain.landing d owner (batch.mapIdx fun i call => (call, passage i)) s.world
    | some (.account op) => (op.mine d owner (batch.map Onchain.Call.targetAndData) s.world).2
  w.executeAll d env.behind

-- A later version of the file is queued in its place.
def Replaced (bump : String × String) : Prop :=
  ∃ headerHash, newest (env.early ++ env.meanwhile ++ env.late) bump.1 = some headerHash ∧
    headerHash ≠ bump.2

-- It went out in a batch that is confirmed, and the queue is rewritten without it.
def Cleared (bump : String × String) : Prop :=
  env.Confirmed d owner call l s ∧ env.clearIo = .sound ∧ bump ∈ env.waiting l ∧
    newest env.late bump.1 = none

end Tap

-- The registry took this version of the file, both given as in the ledger.
def OnChain (w : Onchain.World) (bump : String × String) : Prop :=
  ∃ fileId headerHash, decodeBump bump = some (.bumpVersion fileId headerHash) ∧
    w.Bumped fileId headerHash

-- What was queued is in the queue afterwards or on the chain, and not both.
def DeferredExact (d : Contracts.Deployment) (owner : Contracts.Address) (env : Tap) (call : Call)
    (l : Ledger) (s : Onchain.State) : Prop :=
  ∀ bump, env.Queued l bump →
    (bump ∈ (ChainLink.tap d owner env call l s).ledger.deferredBumps ↔
      ¬ OnChain (ChainLink.tap d owner env call l s).state.world bump)

-- When the queue comes out right.
structure Tap.Settles (d : Contracts.Deployment) (owner : Contracts.Address) (env : Tap) (call : Call)
    (l : Ledger) (s : Onchain.State) : Prop where
  -- no version that has not landed gives way to a later one
  replaced : ∀ bump, env.Queued l bump → env.Replaced bump → OnChain (env.after d owner call l s) bump
  -- in a confirmed batch every queued pair can be read, and where the calls are sent one by one,
  -- its transaction did not revert (unless the version is there without it)
  cleared : ∀ bump, env.Cleared d owner call l s bump → (decodeBump bump).isSome ∧
    ∀ passage, env.carriage = some (.direct passage) → OnChain (env.after d owner call l s) bump
  -- whatever stays in the queue was not on the chain before and did not get there meanwhile: by
  -- way of others, in a batch that is not confirmed, or in one that cannot be taken off the queue
  kept : ∀ bump, env.Queued l bump → ¬ env.Replaced bump → ¬ env.Cleared d owner call l s bump →
    ¬ OnChain (env.after d owner call l s) bump

section Queue

variable {l : Ledger} {bump : String × String}

theorem newest_append (xs ys : List Defer) (fid : String) :
    newest (xs ++ ys) fid = (newest ys fid).or (newest xs fid) := by
  rw [newest, List.filterMap_append, List.getLast?_append]
  rfl

theorem newest_singleton (x : Defer) (fid : String) : newest [x] fid = x.newer fid := by
  cases h : x.newer fid with
  | none => rw [newest, List.filterMap_cons_none h]; rfl
  | some headerHash => rw [newest, List.filterMap_cons_some h]; rfl

theorem newest_eq_none {defers : List Defer} {fid : String} (h : newest defers fid = none) {x : Defer}
    (hx : x ∈ defers) : x.newer fid = none := by
  rw [newest, List.getLast?_eq_none_iff, List.filterMap_eq_nil_iff] at h
  exact h x hx

theorem mem_deferBump {x : Defer} : bump ∈ (l.deferBump x.io x.fid x.headerHash).2.deferredBumps ↔
    x.newer bump.1 = some bump.2 ∨ x.newer bump.1 = none ∧ bump ∈ l.deferredBumps := by
  obtain ⟨⟨loads, stores⟩, fid, headerHash⟩ := x
  obtain ⟨f, h⟩ := bump
  cases loads <;> cases stores <;>
    simp only [Ledger.deferBump, Ledger.update, Defer.newer, LedgerIo.sound]
  all_goals by_cases hf : fid = f <;> simp [hf, eq_comm, or_comm]

theorem mem_deferAll (defers : List Defer) : bump ∈ (l.deferAll defers).deferredBumps ↔
    newest defers bump.1 = some bump.2 ∨ newest defers bump.1 = none ∧ bump ∈ l.deferredBumps := by
  induction defers generalizing l with
  | nil => simp [Ledger.deferAll, newest]
  | cons x rest ih =>
      rw [Ledger.deferAll, List.foldl_cons, ← Ledger.deferAll, ih, ← List.singleton_append, newest_append,
        newest_singleton, mem_deferBump]
      cases newest rest bump.1 <;> simp

theorem mem_clearDeferredBumps {io : LedgerIo} {landed : List (String × String)} :
    bump ∈ (l.clearDeferredBumps io landed).2.deferredBumps ↔
      bump ∈ l.deferredBumps ∧ ¬(io = .sound ∧ bump ∈ landed) := by
  obtain ⟨loads, stores⟩ := io
  cases loads <;> cases stores <;> simp [Ledger.clearDeferredBumps, Ledger.update, LedgerIo.sound]

end Queue

section Tap

variable {d : Contracts.Deployment} {owner : Contracts.Address} {env : Tap} {call : Call} {l : Ledger}
  {s : Onchain.State} {bump : String × String}

theorem batchOf_ne_nil (waiting : List (String × String)) (call : Call) : batchOf waiting call ≠ [] := by
  simp [batchOf]

theorem decodeBump_hexEncode (fileId headerHash : FixedBytes 32) :
    decodeBump (hexEncode fileId.bytes, hexEncode headerHash.bytes) =
      some (.bumpVersion fileId headerHash) := by
  simp [decodeBump]

theorem run_accountBatch {batch : List Onchain.Call} (hbatch : batch ≠ []) (op : Onchain.Operation) :
    (Onchain.Writing.accountBatch batch op).run d owner s =
      Onchain.SmartAccountWriter.sendCallData d owner batch op s := by
  cases batch with
  | nil => exact absurd rfl hbatch
  | cons => rfl

theorem ok_iff_confirmed {carriage : Carriage} (h : env.carriage = some carriage) :
    (∃ tx, ((carriage.writing (batchOf (env.waiting l) call)).run d owner s).result = .ok tx) ↔
      env.Confirmed d owner call l s := by
  cases carriage with
  | direct passage =>
      rw [Carriage.writing, Onchain.Writing.run, Onchain.DirectWriter.submit, Onchain.submitFrom_ok_iff,
        Tap.Confirmed, h]
      constructor
      · intro hall i hi
        exact hall ((batchOf (env.waiting l) call)[i], passage i) (List.mem_mapIdx.mpr ⟨i, hi, rfl⟩)
      · intro hall q hq
        obtain ⟨i, hi, rfl⟩ := List.mem_mapIdx.mp hq
        exact hall i hi
  | account op =>
      rw [Carriage.writing, run_accountBatch (batchOf_ne_nil _ _), Onchain.sendCallData_ok_iff,
        Tap.Confirmed, h]

theorem tap_world : (ChainLink.tap d owner env call l s).state.world = env.after d owner call l s := by
  unfold ChainLink.tap Tap.after
  cases h : env.carriage with
  | none => rfl
  | some carriage =>
      cases carriage with
      | direct passage =>
          dsimp only
          rw [Carriage.writing, Onchain.Writing.run, Onchain.DirectWriter.submit, Onchain.submitFrom_world]
          rfl
      | account op =>
          dsimp only
          rw [Carriage.writing, run_accountBatch (batchOf_ne_nil _ _), Onchain.sendCallData_world]
          rfl

theorem mem_tap : bump ∈ (ChainLink.tap d owner env call l s).ledger.deferredBumps ↔
    newest env.late bump.1 = some bump.2 ∨ newest env.late bump.1 = none ∧
      bump ∈ (l.deferAll (env.early ++ env.meanwhile)).deferredBumps ∧
      ¬(env.Confirmed d owner call l s ∧ env.clearIo = .sound ∧ bump ∈ env.waiting l) := by
  have happend : l.deferAll (env.early ++ env.meanwhile) =
      (l.deferAll env.early).deferAll env.meanwhile := List.foldl_append
  unfold ChainLink.tap
  cases h : env.carriage with
  | none => simp [mem_deferAll, happend, Tap.Confirmed, h]
  | some carriage =>
      rw [← ok_iff_confirmed h]
      dsimp only
      rw [mem_deferAll, happend]
      refine or_congr_right (and_congr_right fun _ => ?_)
      rw [show (l.deferAll env.early).waitingBumps env.readIo = env.waiting l from rfl]
      cases ((carriage.writing (batchOf (env.waiting l) call)).run d owner s).result with
      | error e => simp
      | ok tx =>
          dsimp only
          split_ifs with hwaiting
          · simp [hwaiting]
          · rw [mem_clearDeferredBumps]
            simp

-- A pair that was queued leaves the queue in two ways.
theorem mem_tap_of_queued (hqueued : env.Queued l bump) :
    bump ∈ (ChainLink.tap d owner env call l s).ledger.deferredBumps ↔
      ¬ env.Replaced bump ∧ ¬ env.Cleared d owner call l s bump := by
  rw [mem_tap, Tap.Replaced, newest_append, Tap.Cleared]
  cases hlate : newest env.late bump.1 with
  | some headerHash => simp [eq_comm]
  | none =>
      rw [mem_deferAll]
      cases hearly : newest (env.early ++ env.meanwhile) bump.1 with
      | some headerHash => simp [eq_comm]
      | none =>
          -- nobody queued the file during the call, so the pair was there before
          have hthere : bump ∈ l.deferredBumps := by
            refine hqueued.resolve_right ?_
            rintro ⟨x, hx, hio, rfl⟩
            have hnewer : x.newer x.fid = none := by
              rcases List.mem_append.mp hx with hx | hx
              · exact newest_eq_none hearly hx
              · exact newest_eq_none hlate hx
            simp [Defer.newer, hio] at hnewer
          simp [hthere]

theorem Tap.Cleared.queued (h : env.Cleared d owner call l s bump) : env.Queued l bump := by
  obtain ⟨-, -, hwaiting, -⟩ := h
  rw [Tap.waiting, Ledger.waitingBumps] at hwaiting
  split_ifs at hwaiting
  · rcases (mem_deferAll _).mp hwaiting with hnewest | ⟨-, hthere⟩
    · obtain ⟨x, hx, hnewer⟩ := List.mem_filterMap.mp (List.mem_of_getLast? hnewest)
      rw [Defer.newer] at hnewer
      split_ifs at hnewer with hsound
      refine .inr ⟨x, by simp [hx], hsound.1, ?_⟩
      rw [hsound.2, Option.some.inj hnewer]
    · exact .inl hthere
  · exact absurd hwaiting List.not_mem_nil

-- What an operation that succeeded carried is on the chain.
theorem Tap.Cleared.onChain {op : Onchain.Operation} (hop : env.carriage = some (.account op))
    (h : env.Cleared d owner call l s bump) (hread : (decodeBump bump).isSome) :
    OnChain (env.after d owner call l s) bump := by
  obtain ⟨hconfirmed, -, hwaiting, -⟩ := h
  obtain ⟨c, hc⟩ := Option.isSome_iff_exists.mp hread
  obtain ⟨fileId, headerHash, rfl⟩ : ∃ fileId headerHash, c = .bumpVersion fileId headerHash := by
    unfold decodeBump at hc
    simp only [Option.bind_eq_bind, Option.bind_eq_some_iff] at hc
    obtain ⟨fileId, -, headerHash, -, hc⟩ := hc
    exact ⟨fileId, headerHash, (Option.some.inj hc).symm⟩
  refine ⟨fileId, headerHash, hc, ?_⟩
  rw [Tap.Confirmed, hop] at hconfirmed
  obtain ⟨-, -, hsuccess⟩ := hconfirmed
  rw [Tap.after, hop]
  refine Onchain.World.Bumped.executeAll ?_ _
  dsimp only at hsuccess ⊢
  have hmem : Contracts.Call.bumpVersion fileId headerHash ∈
      (batchOf (env.waiting l) call).map Onchain.Call.targetAndData := by
    refine List.mem_map.mpr ⟨.bumpVersion fileId headerHash, ?_, rfl⟩
    exact List.mem_map.mpr ⟨.bumpVersion fileId headerHash,
      List.mem_append_left _ (List.mem_filterMap.mpr ⟨bump, hwaiting, hc⟩), rfl⟩
  unfold Onchain.Operation.mine at hsuccess ⊢
  split at hsuccess
  · cases hsuccess
  · split at hsuccess
    · cases hsuccess
    · rename_i hbatch
      exact (Onchain.World.executeBatch_bumped hbatch).2 hmem

-- The queue comes out as what has not landed, exactly under these conditions.
theorem deferred_exact_iff (d : Contracts.Deployment) (owner : Contracts.Address) (env : Tap) (call : Call)
    (l : Ledger) (s : Onchain.State) :
    DeferredExact d owner env call l s ↔ env.Settles d owner call l s := by
  rw [DeferredExact, tap_world]
  constructor
  · intro hexact
    refine ⟨fun bump hqueued hreplaced => ?_, fun bump hcleared => ?_, fun bump hqueued hr hc => ?_⟩
    · by_contra hnot
      exact ((mem_tap_of_queued hqueued).mp ((hexact bump hqueued).mpr hnot)).1 hreplaced
    · have hon : OnChain (env.after d owner call l s) bump := by
        by_contra hnot
        exact ((mem_tap_of_queued hcleared.queued).mp
          ((hexact bump hcleared.queued).mpr hnot)).2 hcleared
      have hread := hon
      obtain ⟨fileId, headerHash, hc, -⟩ := hread
      exact ⟨by rw [hc]; rfl, fun _ _ => hon⟩
    · exact (hexact bump hqueued).mp ((mem_tap_of_queued hqueued).mpr ⟨hr, hc⟩)
  · rintro ⟨hreplaced, hcleared, hkept⟩ bump hqueued
    rw [mem_tap_of_queued hqueued]
    constructor
    · exact fun ⟨hr, hc⟩ => hkept bump hqueued hr hc
    · intro hnot
      refine ⟨fun hr => hnot (hreplaced bump hqueued hr), fun hc => hnot ?_⟩
      obtain ⟨hread, hdirect⟩ := hcleared bump hc
      cases hcarriage : env.carriage with
      | none => exact absurd hc.1 (by simp [Tap.Confirmed, hcarriage])
      | some carriage =>
          cases carriage with
          | direct passage => exact hdirect passage hcarriage
          | account op => exact hc.onChain hcarriage hread

end Tap

namespace Reference

-- The owner's file at its second version on the chain, and a third that waits.
def waitingLedger : Ledger :=
  { Ledger.empty with deferredBumps :=
      [(hexEncode Onchain.Reference.fileId.bytes, hexEncode (Onchain.Reference.headerHash 3).bytes)] }

-- The approval that is the tap: for the third version, from 100 to 200.
def tapped : AccessGrantTerms :=
  { fileId := Onchain.Reference.fileId
    headerHash := Onchain.Reference.headerHash 3
    deviceKeyHash := .replicate 32 4
    permission := 1
    notBefore := 100
    expiry := 200
    maxOpens := 0
    requestNonce := .replicate 16 5
    grantNonce := 0 }

-- The operation gets into a block, and the wait for its receipt is over before that.
def overdue : Onchain.Operation := ⟨.ok (), [], some (Onchain.Reference.block 110), .error .unreachable⟩

def overdueTap : Tap := ⟨some (.account overdue), .sound, .sound, [], [], [], []⟩

-- The same again at once, with nothing in the way this time.
def nextTap : Tap :=
  { overdueTap with carriage := some (.account { overdue with receipt := .ok (.replicate 32 9) }) }

theorem batchOf_waiting (call : Call) : batchOf waitingLedger.deferredBumps call =
    [.bumpVersion Onchain.Reference.fileId (Onchain.Reference.headerHash 3), call.onchain] := by
  simp [batchOf, waitingLedger, decodeBump_hexEncode, Call.onchain]

def overdueCalls : List Contracts.Call :=
  [.bumpVersion Onchain.Reference.fileId (Onchain.Reference.headerHash 3),
    .grant (Contracts.onChain tapped) []]

-- The chain with the operation on it.
def overdueWorld : Onchain.World :=
  (overdue.mine Onchain.Reference.deployment Onchain.Reference.owner overdueCalls
    Onchain.Reference.registered.world).2

theorem after_overdue : overdueTap.after Onchain.Reference.deployment Onchain.Reference.owner
    (.grant tapped) waitingLedger Onchain.Reference.registered = overdueWorld := by
  simp only [Tap.after, overdueTap, Tap.waiting, Ledger.deferAll, List.foldl_nil, Ledger.waitingBumps,
    LedgerIo.sound, if_true, batchOf_waiting]
  rfl

theorem overdueWorld_bumped :
    overdueWorld.Bumped Onchain.Reference.fileId (Onchain.Reference.headerHash 3) := by
  have hsome : (Onchain.Reference.registered.world.executeBatch Onchain.Reference.deployment
      Onchain.Reference.owner (Onchain.Reference.block 110) overdueCalls).isSome = true := by
    decide +kernel
  obtain ⟨w, hw⟩ := Option.isSome_iff_exists.mp hsome
  have hworld : overdueWorld = w := by
    simp only [overdueWorld, overdue, Onchain.Operation.mine, Onchain.World.executeAll, List.foldl_nil, hw]
  rw [hworld]
  exact (Onchain.World.executeBatch_bumped hw).2 (by simp [overdueCalls])

-- The version is on the chain and stays in the queue, and no tap goes through any more.
theorem not_deferredExact :
    ¬ DeferredExact Onchain.Reference.deployment Onchain.Reference.owner overdueTap (.grant tapped)
      waitingLedger Onchain.Reference.registered ∧
    ∀ call, (ChainLink.tap Onchain.Reference.deployment Onchain.Reference.owner nextTap call waitingLedger
      (ChainLink.tap Onchain.Reference.deployment Onchain.Reference.owner overdueTap (.grant tapped)
        waitingLedger Onchain.Reference.registered).state).result = .error .rejected := by
  constructor
  · intro hexact
    have hqueued : overdueTap.Queued waitingLedger
        (hexEncode Onchain.Reference.fileId.bytes, hexEncode (Onchain.Reference.headerHash 3).bytes) :=
      .inl (by simp [waitingLedger])
    have hiff := hexact _ hqueued
    rw [tap_world, after_overdue, mem_tap_of_queued hqueued] at hiff
    refine hiff.mp ⟨?_, ?_⟩ ⟨_, _, decodeBump_hexEncode .., overdueWorld_bumped⟩
    · rintro ⟨headerHash, hnewest, -⟩
      cases hnewest
    · rintro ⟨⟨-, ⟨tx, htx⟩, -⟩, -⟩
      cases htx
  · intro call
    generalize hstate : (ChainLink.tap Onchain.Reference.deployment Onchain.Reference.owner overdueTap
      (.grant tapped) waitingLedger Onchain.Reference.registered).state = s
    have hworld : s.world = overdueWorld := by rw [← hstate, tap_world, after_overdue]
    -- the registry has the version already
    have hreverts : (overdueWorld.attempt Onchain.Reference.deployment Onchain.Reference.owner
        (Onchain.Reference.block 110)
        (.bumpVersion Onchain.Reference.fileId (Onchain.Reference.headerHash 3))).1 = false := by
      decide +kernel
    have hbatch : s.world.executeBatch Onchain.Reference.deployment Onchain.Reference.owner
        (Onchain.Reference.block 110) ([Onchain.Call.bumpVersion Onchain.Reference.fileId
          (Onchain.Reference.headerHash 3), call.onchain].map Onchain.Call.targetAndData) = none := by
      rw [hworld, List.map_cons, Onchain.World.executeBatch]
      split
      · rfl
      · rename_i hattempt
        cases hreverts.symm.trans (congrArg Prod.fst hattempt)
    simp only [ChainLink.tap, nextTap, overdueTap, overdue, Ledger.deferAll, List.foldl_nil,
      Ledger.waitingBumps, LedgerIo.sound, if_true, batchOf_waiting, Carriage.writing, Onchain.Writing.run,
      Onchain.SmartAccountWriter.submit, Onchain.SmartAccountWriter.sendCallData, Onchain.Operation.mine,
      Onchain.World.executeAll, hbatch]

end Reference

end Zbacs.Agent
