import Zbacs.Onchain.Writer.Landing

namespace Zbacs.Onchain

open Zbacs.Lib Zbacs.Contracts

-- Who can make the registry say something about a file.

-- A version of a file that a call asks the registry to take.
def Says (said : FixedBytes 32 → FixedBytes 32 → Prop) : Contracts.Call → Prop
  | .register fileId headerHash | .bumpVersion fileId headerHash => said fileId headerHash
  | .retire _ | .grant .. | .revoke _ | .consumeOpen .. => True

-- Whatever the registry has of this account's files is among these versions.
def SaidBy (account : Address) (said : FixedBytes 32 → FixedBytes 32 → Prop) (w : World) : Prop :=
  ∀ fileId, (w.chain.registry.files fileId).owner = account →
    said fileId (w.chain.registry.files fileId).headerHash

-- Nothing of these is sent from the account.
def Foreign (account : Address) (txs : List Tx) : Prop := ∀ tx ∈ txs, tx.msg.sender ≠ account

-- What others have mined around a write of the account.
def Writing.Foreign (account : Address) : Writing → Prop
  | .direct _ p => Onchain.Foreign account p.ahead
  | .directBatch batch => ∀ q ∈ batch, Onchain.Foreign account q.2.ahead
  | .account _ op | .accountBatch _ op => Onchain.Foreign account op.ahead

section

variable {d : Contracts.Deployment} {account : Address} {said : FixedBytes 32 → FixedBytes 32 → Prop}
  {w w' : World} {s : State}

theorem SaidBy.mono {said' : FixedBytes 32 → FixedBytes 32 → Prop} (h : SaidBy account said w)
    (hsaid : ∀ fileId headerHash, said fileId headerHash → said' fileId headerHash) :
    SaidBy account said' w := fun fileId howner => hsaid _ _ (h fileId howner)

-- The registry after one transaction: of another's it takes nothing for this account, and of the
-- account's own what the call says.
theorem SaidBy.execute (h : SaidBy account said w) {tx : Tx}
    (htx : tx.msg.sender = account → Says said tx.call) : SaidBy account said (w.execute d tx) := by
  obtain ⟨msg, call⟩ := tx
  change ∀ fileId, ((w.chain.transact d ⟨msg, call⟩).2.registry.files fileId).owner = account →
    said fileId ((w.chain.transact d ⟨msg, call⟩).2.registry.files fileId).headerHash
  unfold Chain.transact
  cases call with
  | register file hash =>
      dsimp only
      rcases hrun : w.chain.registry.register msg.sender file hash with why | ⟨event, r⟩
      · exact h
      · obtain ⟨-, -, -, rfl⟩ := FileRegistry.register_eq_ok hrun
        intro fileId
        change ((w.chain.registry.write file _).files fileId).owner = account →
          said fileId ((w.chain.registry.write file _).files fileId).headerHash
        by_cases hfile : fileId = file
        · subst hfile
          rw [FileRegistry.write_self]
          exact htx
        · rw [FileRegistry.write_of_ne hfile]
          exact h fileId
  | bumpVersion file hash =>
      dsimp only
      rcases hrun : w.chain.registry.bumpVersion msg.sender file hash with why | ⟨event, r⟩
      · exact h
      · obtain ⟨-, hsender, -, -, -, -, -, rfl⟩ := FileRegistry.bumpVersion_eq_ok hrun
        intro fileId
        change ((w.chain.registry.write file _).files fileId).owner = account →
          said fileId ((w.chain.registry.write file _).files fileId).headerHash
        by_cases hfile : fileId = file
        · subst hfile
          rw [FileRegistry.write_self]
          exact fun howner => htx (hsender.symm.trans howner)
        · rw [FileRegistry.write_of_ne hfile]
          exact h fileId
  | retire file =>
      dsimp only
      rcases hrun : w.chain.registry.retire msg.sender file with why | ⟨event, r⟩
      · exact h
      · obtain ⟨-, -, -, -, rfl⟩ := FileRegistry.retire_eq_ok hrun
        intro fileId
        change ((w.chain.registry.write file _).files fileId).owner = account →
          said fileId ((w.chain.registry.write file _).files fileId).headerHash
        by_cases hfile : fileId = file
        · subst hfile
          rw [FileRegistry.write_self]
          exact h fileId
        · rw [FileRegistry.write_of_ne hfile]
          exact h fileId
  | grant g ownerSig =>
      dsimp only
      cases w.chain.policy.grant d msg w.chain.registry g ownerSig <;> exact h
  | revoke grantId =>
      dsimp only
      cases w.chain.policy.revoke msg grantId <;> exact h
  | consumeOpen grantId devicePubKeys =>
      dsimp only
      cases w.chain.policy.consumeOpen d msg grantId devicePubKeys <;> exact h

theorem SaidBy.executeAll (h : SaidBy account said w) {txs : List Tx} (hforeign : Foreign account txs) :
    SaidBy account said (w.executeAll d txs) := by
  induction txs generalizing w with
  | nil => exact h
  | cons tx txs ih =>
      obtain ⟨htx, hrest⟩ := List.forall_mem_cons.mp hforeign
      exact ih (h.execute fun hsender => absurd hsender htx) hrest

theorem SaidBy.attempt (h : SaidBy account said w) {b : Block} {call : Contracts.Call}
    (hcall : Says said call) : SaidBy account said (w.attempt d account b call).2 := by
  unfold World.attempt
  split_ifs
  · exact h.execute fun _ => hcall
  · exact h

theorem SaidBy.executeBatch (h : SaidBy account said w) {b : Block} {calls : List Contracts.Call}
    (hcalls : ∀ call ∈ calls, Says said call) (hrun : w.executeBatch d account b calls = some w') :
    SaidBy account said w' := by
  induction calls generalizing w with
  | nil =>
      cases hrun
      exact h
  | cons call rest ih =>
      obtain ⟨hcall, hrest⟩ := List.forall_mem_cons.mp hcalls
      have hattempt := @SaidBy.attempt d account said w h b call hcall
      rw [World.executeBatch] at hrun
      rcases hdone : w.attempt d account b call with ⟨_ | _, w₁⟩
      · rw [hdone] at hrun
        cases hrun
      · rw [hdone] at hrun hattempt
        exact ih hattempt hrest hrun

theorem SaidBy.passage (h : SaidBy account said w) {call : Contracts.Call} {p : Passage}
    (hcall : Says said call) (hforeign : Foreign account p.ahead) :
    SaidBy account said (p.mine d account call w).2 := by
  unfold Passage.mine
  cases p.block with
  | none => exact h.executeAll hforeign
  | some b => exact (h.executeAll hforeign).attempt hcall

theorem SaidBy.operation (h : SaidBy account said w) {calls : List Contracts.Call} {op : Operation}
    (hcalls : ∀ call ∈ calls, Says said call) (hforeign : Foreign account op.ahead) :
    SaidBy account said (op.mine d account calls w).2 := by
  have hahead := @SaidBy.executeAll d account said w h op.ahead hforeign
  unfold Operation.mine
  cases op.block with
  | none => exact hahead
  | some b =>
      dsimp only
      cases hbatch : (w.executeAll d op.ahead).executeBatch d account b calls with
      | none => exact hahead
      | some w' => exact hahead.executeBatch hcalls hbatch

theorem SaidBy.landing (h : SaidBy account said w) {batch : List (Call × Passage)}
    (hcalls : ∀ q ∈ batch, Says said q.1.targetAndData)
    (hforeign : ∀ q ∈ batch, Foreign account q.2.ahead) :
    SaidBy account said (landing d account batch w) := by
  induction batch generalizing w with
  | nil => exact h
  | cons q rest ih =>
      obtain ⟨call, p⟩ := q
      obtain ⟨hcall, hcalls⟩ := List.forall_mem_cons.mp hcalls
      obtain ⟨hahead, hforeign⟩ := List.forall_mem_cons.mp hforeign
      have hone := @SaidBy.passage d account said w h call.targetAndData p hcall hahead
      rw [Onchain.landing]
      split_ifs
      · exact ih hone hcalls hforeign
      · exact hone

-- However a write of the account travels and fares, it says no more than its calls.
theorem SaidBy.run (h : SaidBy account said s.world) {writing : Writing}
    (hcalls : ∀ call ∈ writing.calls, Says said call.targetAndData) (hforeign : writing.Foreign account) :
    SaidBy account said (writing.run d account s).state.world := by
  cases writing with
  | direct call p =>
      have hworld := @submitFrom_world d account s [(call, p)] (.replicate 32 0)
      rw [submitFrom_singleton] at hworld
      rw [Writing.run, hworld]
      refine h.landing (fun q hq => ?_) fun q hq => ?_
      · obtain rfl := List.mem_singleton.mp hq
        exact hcalls call List.mem_cons_self
      · obtain rfl := List.mem_singleton.mp hq
        exact hforeign
  | directBatch batch =>
      rw [Writing.run, DirectWriter.submit, submitFrom_world]
      exact h.landing (fun q hq => hcalls q.1 (List.mem_map_of_mem hq)) hforeign
  | account call op =>
      rw [Writing.run, SmartAccountWriter.write, sendCallData_world]
      exact h.operation (List.forall_mem_map.mpr hcalls) hforeign
  | accountBatch batch op =>
      cases batch with
      | nil => exact h
      | cons call rest =>
          rw [Writing.run, SmartAccountWriter.submit, sendCallData_world]
          · exact h.operation (List.forall_mem_map.mpr hcalls) hforeign
          · rintro ⟨⟩

end

end Zbacs.Onchain
