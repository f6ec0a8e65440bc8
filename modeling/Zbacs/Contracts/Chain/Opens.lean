import Zbacs.Contracts.Chain.Grants

namespace Zbacs.Contracts

open Zbacs.Lib

-- How many opens of a grant the chain has counted.

-- One transaction more: making the grant starts the count.
def countOpen (id : FixedBytes 32) (n : Nat) (x : Mined) : Nat :=
  match x.output with
  | .policy (.granted grantId ..) => if grantId = id then 0 else n
  | .policy (.opened grantId _) => if grantId = id then n + 1 else n
  | _ => n

def opensCounted (id : FixedBytes 32) (log : List Mined) : Nat := log.foldl (countOpen id) 0

section Counted

variable {d : Deployment} {id : FixedBytes 32}

theorem transact_opens (d : Deployment) (c : Chain) (tx : Tx) :
    ((c.transact d tx).2.policy.grants id).opens.toNat =
      countOpen id (c.policy.grants id).opens.toNat (taken (Chain.transact d) c tx) := by
  have hdid := transact_did d c tx
  unfold taken
  generalize c.transact d tx = out at hdid ⊢
  cases hdid with
  | registryReverted | policyReverted | registered | bumped | retired => rfl
  | @revoked grantId hcall howner =>
      dsimp only [countOpen]
      by_cases hid : id = grantId
      · subst hid
        rw [AccessPolicy.write_self]
      · rw [AccessPolicy.write_of_ne hid]
  | @opened grantId devicePubKeys hcall hvalid hbound =>
      dsimp only [countOpen]
      by_cases hid : id = grantId
      · subst hid
        rw [AccessPolicy.write_self, if_pos rfl]
        exact toNat_opens hbound
      · rw [AccessPolicy.write_of_ne hid, if_neg (Ne.symm hid)]
  | @granted g ownerSig p' hcall hgrants =>
      dsimp only [countOpen]
      rw [hgrants.result]
      dsimp only
      by_cases hid : id = g.hashStruct d
      · subst hid
        rw [Function.update_self, if_pos rfl]
        rfl
      · rw [Function.update_of_ne hid, if_neg (Ne.symm hid)]

-- The counter in the record is the number of opens since the grant was made.
theorem opens_run (d : Deployment) (txs : List Tx) :
    ((Chain.run d txs).policy.grants id).opens.toNat = opensCounted id (Chain.log d txs) := by
  induction txs using List.reverseRecOn with
  | nil => rfl
  | append_singleton before tx ih =>
      rw [run_concat, log_concat, opensCounted, List.foldl_append, ← opensCounted, ← ih]
      exact transact_opens d _ tx

end Counted

-- A grant without a limit, valid at the time of an open by someone with the right keys.
structure AccessPolicy.Unlimited (d : Deployment) (p : AccessPolicy) (msg : Msg)
    (id : FixedBytes 32) (devicePubKeys : Bytes) : Prop where
  unlimited : (p.grants id).maxOpens = 0
  valid : p.isValid msg.timestamp id = true
  device : d.keccak256 devicePubKeys = (p.grants id).deviceKeyHash

namespace AccessPolicy

section Unlimited

variable {d : Deployment} {p : AccessPolicy} {c : Chain} {msg : Msg} {id : FixedBytes 32}
  {devicePubKeys : Bytes}

theorem Unlimited.consumeOpen_eq (h : p.Unlimited d msg id devicePubKeys) :
    p.consumeOpen d msg id devicePubKeys =
      if (p.grants id).opens.toNat + 1 ≥ 2 ^ 16 then .error .overflow
      else .ok (.opened id ((p.grants id).opens + 1),
        p.write id { p.grants id with opens := (p.grants id).opens + 1 }) := by
  have howner := (isValid_eq_true h.valid).1
  unfold consumeOpen
  dsimp only
  rw [if_neg howner, if_neg (by rw [h.valid]; exact Bool.false_ne_true),
    if_neg (not_not.mpr h.device)]

-- The counter is all that can stop it.
theorem Unlimited.lands_iff (h : p.Unlimited d msg id devicePubKeys) :
    (∃ event p', p.consumeOpen d msg id devicePubKeys = .ok (event, p')) ↔
      (p.grants id).opens.toNat + 1 < 2 ^ 16 := by
  rw [h.consumeOpen_eq]
  constructor
  · rintro ⟨event, p', hlands⟩
    exact Nat.not_le.mp (ite_error_eq_ok.mp hlands).1
  · intro hbound
    exact ⟨_, _, if_neg (Nat.not_le.mpr hbound)⟩

-- The count does not matter to a grant without a limit.
theorem Unlimited.write (h : p.Unlimited d msg id devicePubKeys) (opens : UInt16) :
    (p.write id { p.grants id with opens := opens }).Unlimited d msg id devicePubKeys := by
  refine ⟨?_, ?_, ?_⟩
  · rw [write_self]
    exact h.unlimited
  · have hvalid := h.valid
    unfold isValid at hvalid ⊢
    simp only [write_self, h.unlimited, ne_eq, not_true_eq_false, false_and, if_false] at hvalid ⊢
    exact hvalid
  · rw [write_self]
    exact h.device

theorem Unlimited.transact (h : c.policy.Unlimited d msg id devicePubKeys)
    (hbound : (c.policy.grants id).opens.toNat + 1 < 2 ^ 16) :
    (c.transact d ⟨msg, .consumeOpen id devicePubKeys⟩).2.policy =
      c.policy.write id { c.policy.grants id with opens := (c.policy.grants id).opens + 1 } := by
  have hopen := h.consumeOpen_eq
  rw [if_neg (Nat.not_le.mpr hbound)] at hopen
  unfold Chain.transact
  dsimp only
  rw [hopen]
  rfl

-- So many opens one after the other are counted.
theorem Unlimited.opens (n : Nat) (h : c.policy.Unlimited d msg id devicePubKeys)
    (hbound : (c.policy.grants id).opens.toNat + n < 2 ^ 16) :
    (final (Chain.transact d) (.replicate n ⟨msg, .consumeOpen id devicePubKeys⟩) c).policy.Unlimited
        d msg id devicePubKeys ∧
      ((final (Chain.transact d) (.replicate n ⟨msg, .consumeOpen id devicePubKeys⟩)
        c).policy.grants id).opens.toNat = (c.policy.grants id).opens.toNat + n := by
  induction n generalizing c with
  | zero => exact ⟨h, rfl⟩
  | succ n ih =>
      have hone : (c.policy.grants id).opens.toNat + 1 < 2 ^ 16 := by omega
      have hnext := h.transact hone
      have hcount :
          ((c.transact d ⟨msg, .consumeOpen id devicePubKeys⟩).2.policy.grants id).opens.toNat =
            (c.policy.grants id).opens.toNat + 1 := by
        rw [hnext, write_self]
        exact toNat_opens hone
      rw [List.replicate_succ, final]
      obtain ⟨hunlimited, hopens⟩ := ih (hnext ▸ h.write _) (by omega)
      exact ⟨hunlimited, by omega⟩

end Unlimited

end AccessPolicy

end Zbacs.Contracts
