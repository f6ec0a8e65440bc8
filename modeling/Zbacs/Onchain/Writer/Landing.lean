import Zbacs.Onchain.Writer.Effects

namespace Zbacs.Onchain

open Zbacs.Lib Zbacs.Contracts

-- What is on the chain once a write is over.

-- The registry took this version of the file.
def World.Bumped (fileId headerHash : FixedBytes 32) (w : World) : Prop :=
  ∃ x ∈ w.log, ∃ version, x.output = .registry (.versionBumped fileId version headerHash)

section World

variable {d : Contracts.Deployment} {fileId headerHash : FixedBytes 32} {w w' : World}

theorem World.Bumped.execute (h : w.Bumped fileId headerHash) (tx : Tx) :
    (w.execute d tx).Bumped fileId headerHash := by
  obtain ⟨x, hx, hout⟩ := h
  exact ⟨x, List.mem_append_left _ hx, hout⟩

theorem World.Bumped.executeAll (h : w.Bumped fileId headerHash) (txs : List Tx) :
    (w.executeAll d txs).Bumped fileId headerHash := by
  induction txs generalizing w with
  | nil => exact h
  | cons tx txs ih => exact ih (h.execute tx)

theorem World.Bumped.attempt {sender : Address} {b : Block} {call : Contracts.Call}
    (h : w.Bumped fileId headerHash) : (w.attempt d sender b call).2.Bumped fileId headerHash := by
  unfold World.attempt
  split_ifs
  · exact h.execute _
  · exact h

-- A `bumpVersion` that is mined and goes through.
theorem World.attempt_bumped {sender : Address} {b : Block}
    (h : (w.attempt d sender b (.bumpVersion fileId headerHash)).1 = true) :
    (w.attempt d sender b (.bumpVersion fileId headerHash)).2.Bumped fileId headerHash := by
  unfold World.attempt at h ⊢
  split_ifs at h ⊢
  · have hdid := transact_did d w.chain ⟨b.msg sender, .bumpVersion fileId headerHash⟩
    refine ⟨_, List.mem_append_right _ List.mem_cons_self, (w.chain.registry.files fileId).version + 1, ?_⟩
    simp only [taken]
    generalize w.chain.transact d ⟨b.msg sender, .bumpVersion fileId headerHash⟩ = did at h hdid ⊢
    cases hdid with
    | bumped hcall => cases hcall; rfl
    | registryReverted | policyReverted => cases h
    | registered hcall | retired hcall | granted hcall | revoked hcall | opened hcall => cases hcall

theorem World.executeBatch_bumped {sender : Address} {b : Block} {calls : List Contracts.Call}
    (h : w.executeBatch d sender b calls = some w') :
    (w.Bumped fileId headerHash → w'.Bumped fileId headerHash) ∧
      (.bumpVersion fileId headerHash ∈ calls → w'.Bumped fileId headerHash) := by
  induction calls generalizing w with
  | nil =>
      cases h
      exact ⟨id, fun hmem => absurd hmem List.not_mem_nil⟩
  | cons call rest ih =>
      rw [World.executeBatch] at h
      rcases hattempt : w.attempt d sender b call with ⟨_ | _, w₁⟩
      · rw [hattempt] at h
        cases h
      · rw [hattempt] at h
        obtain ⟨hold, hrest⟩ := ih h
        refine ⟨fun hw => hold ?_, fun hmem => ?_⟩
        · have hkept := @World.Bumped.attempt d _ _ _ sender b call hw
          rwa [hattempt] at hkept
        · rcases List.mem_cons.mp hmem with rfl | hmem
          · have hnew := @World.attempt_bumped d fileId headerHash w sender b (by rw [hattempt])
            rw [hattempt] at hnew
            exact hold hnew
          · exact hrest hmem

end World

instance (p : Passage) : Decidable p.Delivered :=
  inferInstanceAs (Decidable (p.sent = true ∧ p.block.isSome ∧ p.receipt.isSome))

-- The chain when a batch that is sent call by call has come to its end.
def landing (d : Contracts.Deployment) (owner : Address) : List (Call × Passage) → World → World
  | [], w => w
  | (call, p) :: rest, w =>
      let w := (p.mine d owner call.targetAndData w).2
      if p.Delivered then landing d owner rest w else w

section Writer

variable {d : Contracts.Deployment} {owner : Address} {s : State}

theorem submitFrom_world (batch : List (Call × Passage)) (last : TxHash) :
    (DirectWriter.submitFrom d owner last batch s).state.world = landing d owner batch s.world := by
  induction batch generalizing last s with
  | nil => rfl
  | cons q rest ih =>
      obtain ⟨call, p⟩ := q
      rw [landing]
      by_cases hdelivered : p.Delivered
      · obtain ⟨tx, a, -, -, hwrite⟩ := @write_delivered d owner call p s hdelivered
        rw [submitFrom_cons_of_ok hwrite rfl, if_pos hdelivered]
        exact ih tx
      · obtain ⟨e, hwrite⟩ := @write_undelivered d owner call p s hdelivered
        rw [submitFrom_cons_of_error (by rw [hwrite]), hwrite, if_neg hdelivered]

theorem sendCallData_world (calls : List Call) (op : Operation) :
    (SmartAccountWriter.sendCallData d owner calls op s).state.world =
      (op.mine d owner (calls.map Call.targetAndData) s.world).2 := by
  unfold SmartAccountWriter.sendCallData
  dsimp only
  split <;> rfl

-- An operation ends well if its receipt is seen in time and says so.
theorem sendCallData_ok_iff (calls : List Call) (op : Operation) :
    (∃ tx, (SmartAccountWriter.sendCallData d owner calls op s).result = .ok tx) ↔
      op.prepared = .ok () ∧ (∃ tx, op.receipt = .ok tx) ∧
        (op.mine d owner (calls.map Call.targetAndData) s.world).1 = some true := by
  unfold SmartAccountWriter.sendCallData
  dsimp only
  split
  · simp [*]
  · simp [*]
  · rename_i hprepared hsuccess hreceipt
    simp [hprepared, hsuccess, hreceipt]
  · rename_i hsuccess hreceipt
    simp [hsuccess]
  · rename_i hsuccess hreceipt
    simp [hsuccess]

end Writer

end Zbacs.Onchain
