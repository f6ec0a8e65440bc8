import Mathlib.Data.List.Nodup
import Zbacs.Contracts.P256Validator

namespace Zbacs.Contracts

open Zbacs.Lib

namespace P256Validator

section Set

variable {account other : Address} {keys : FixedBytes 32 → DeviceKey} {ids : List (FixedBytes 32)}
  {v : P256Validator}

@[simp] theorem set_keys : (v.set account keys ids).keys account = keys := Function.update_self ..

@[simp] theorem set_keyIds : (v.set account keys ids).keyIds account = ids := Function.update_self ..

theorem set_of_ne (h : other ≠ account) : (v.set account keys ids).keys other = v.keys other ∧
    (v.set account keys ids).keyIds other = v.keyIds other :=
  ⟨Function.update_of_ne h .., Function.update_of_ne h ..⟩

end Set

-- What a call can do.
inductive Did (L : Curve) (v : P256Validator) (tx : Tx) : P256Validator → Prop where
  | reverted (hcall : tx.call ≠ .onUninstall) : Did L v tx v
  | enrolled {x y : FixedBytes 32} {requireOsConfirm : Bool} (hcall : tx.call ≠ .onUninstall)
      (hvalid : L.isValidPublicKey x y = true)
      (hfree : (v.keys tx.sender (keyId L x y)).enrolled = false) :
      Did L v tx (v.set tx.sender
        (Function.update (v.keys tx.sender) (keyId L x y) ⟨x, y, requireOsConfirm, true⟩)
        (v.keyIds tx.sender ++ [keyId L x y]))
  | revoked {id : FixedBytes 32} (hcall : tx.call = .revokeKey id)
      (henrolled : (v.keys tx.sender id).enrolled = true) (hmore : (v.keyIds tx.sender).length ≠ 1) :
      Did L v tx (v.set tx.sender (Function.update (v.keys tx.sender) id .zero)
        (swapPopFrom id (v.keyIds tx.sender) (v.keyIds tx.sender).length 0))
  | uninstalled (hcall : tx.call = .onUninstall) : Did L v tx (v.set tx.sender
      ((v.keyIds tx.sender).foldl (fun keys id => Function.update keys id .zero) (v.keys tx.sender)) [])

section Calls

variable {L : Curve} {v v' : P256Validator} {tx : Tx} {events : List ValidatorEvent}
  {account : Address} {x y id : FixedBytes 32} {requireOsConfirm : Bool}

theorem enroll_eq_ok (h : v.enroll L account x y requireOsConfirm = .ok (events, v')) :
    L.isValidPublicKey x y = true ∧ (v.keys account (keyId L x y)).enrolled = false ∧
      v' = v.set account
        (Function.update (v.keys account) (keyId L x y) ⟨x, y, requireOsConfirm, true⟩)
        (v.keyIds account ++ [keyId L x y]) := by
  unfold enroll at h
  dsimp only at h
  simp only [ite_error_eq_ok] at h
  obtain ⟨hvalid, hfree, h⟩ := h
  cases h
  rw [Bool.not_eq_true', Bool.not_eq_false] at hvalid
  exact ⟨hvalid, Bool.not_eq_true _ ▸ hfree, rfl⟩

theorem revokeKey_eq_ok (h : v.revokeKey account id = .ok (events, v')) :
    (v.keys account id).enrolled = true ∧ (v.keyIds account).length ≠ 1 ∧
      v' = v.set account (Function.update (v.keys account) id .zero)
        (swapPopFrom id (v.keyIds account) (v.keyIds account).length 0) := by
  unfold revokeKey at h
  dsimp only at h
  simp only [ite_error_eq_ok] at h
  obtain ⟨henrolled, hmore, h⟩ := h
  cases h
  rw [Bool.not_eq_true', Bool.not_eq_false] at henrolled
  exact ⟨henrolled, hmore, rfl⟩

theorem outcome_did (h : v.outcome L tx = .ok (events, v')) : Did L v tx v' := by
  unfold outcome at h
  cases hcall : tx.call with
  | onInstall data =>
      rw [hcall] at h
      dsimp only [onInstall] at h
      simp only [ite_error_eq_ok, bind_eq_ok] at h
      obtain ⟨-, -, ⟨events', v''⟩, henroll, h⟩ := h
      cases h
      obtain ⟨hvalid, hfree, rfl⟩ := enroll_eq_ok henroll
      exact .enrolled (by simp [hcall]) hvalid hfree
  | enrollKey x y requireOsConfirm =>
      rw [hcall] at h
      obtain ⟨hvalid, hfree, rfl⟩ := enroll_eq_ok h
      exact .enrolled (by simp [hcall]) hvalid hfree
  | revokeKey id =>
      rw [hcall] at h
      obtain ⟨henrolled, hmore, rfl⟩ := revokeKey_eq_ok h
      exact .revoked hcall henrolled hmore
  | onUninstall =>
      rw [hcall] at h
      cases h
      exact .uninstalled hcall

theorem transact_did (L : Curve) (v : P256Validator) (tx : Tx) : Did L v tx (v.transact L tx).2 := by
  unfold transact
  rcases h : v.outcome L tx with why | ⟨events, v'⟩
  · refine .reverted fun hcall => ?_
    rw [outcome, hcall] at h
    cases h
  · exact outcome_did h

end Calls

-- An account's keys are what is listed, each under its own id.
structure KeySet (L : Curve) (keys : FixedBytes 32 → DeviceKey) (ids : List (FixedBytes 32)) :
    Prop where
  nodup : ids.Nodup
  listed : ∀ id, id ∈ ids ↔ (keys id).enrolled = true
  valid : ∀ id, (keys id).enrolled = true → L.isValidPublicKey (keys id).x (keys id).y = true ∧
    keyId L (keys id).x (keys id).y = id
  cleared : ∀ id, (keys id).enrolled = false → keys id = .zero

section KeySet

variable {L : Curve} {keys : FixedBytes 32 → DeviceKey} {ids : List (FixedBytes 32)}
  {x y id : FixedBytes 32} {requireOsConfirm : Bool}

theorem KeySet.empty : KeySet L (fun _ => .zero) [] :=
  ⟨List.nodup_nil, fun _ => iff_of_false List.not_mem_nil Bool.false_ne_true,
    fun _ h => absurd h Bool.false_ne_true, fun _ _ => rfl⟩

theorem KeySet.enroll (h : KeySet L keys ids) (hvalid : L.isValidPublicKey x y = true)
    (hfree : (keys (keyId L x y)).enrolled = false) :
    KeySet L (Function.update keys (keyId L x y) ⟨x, y, requireOsConfirm, true⟩)
      (ids ++ [keyId L x y]) := by
  have hnew : keyId L x y ∉ ids := by
    rw [h.listed, hfree]
    exact Bool.false_ne_true
  refine ⟨List.concat_eq_append ▸ h.nodup.concat hnew, fun id => ?_, fun id => ?_, fun id => ?_⟩
  · by_cases hid : id = keyId L x y
    · simp [hid]
    · rw [Function.update_of_ne hid, ← h.listed]
      simp [hid]
  · by_cases hid : id = keyId L x y
    · rw [hid, Function.update_self]
      exact fun _ => ⟨hvalid, rfl⟩
    · rw [Function.update_of_ne hid]
      exact h.valid id
  · by_cases hid : id = keyId L x y
    · rw [hid, Function.update_self]
      exact fun hfalse => absurd hfalse.symm Bool.false_ne_true
    · rw [Function.update_of_ne hid]
      exact h.cleared id

-- The loop takes the id out once, and it was there once.
theorem KeySet.revoke (h : KeySet L keys ids) :
    KeySet L (Function.update keys id .zero) (swapPopFrom id ids ids.length 0) := by
  have hperm : (swapPopFrom id ids ids.length 0).Perm (ids.erase id) :=
    swapPopFrom_perm (Nat.zero_add _) List.not_mem_nil
  refine ⟨hperm.nodup_iff.mpr (h.nodup.erase id), fun other => ?_, fun other => ?_, fun other => ?_⟩
  · rw [hperm.mem_iff, h.nodup.mem_erase_iff, h.listed]
    by_cases hid : other = id
    · simp [hid, DeviceKey.zero]
    · simp [hid]
  · by_cases hid : other = id
    · rw [hid, Function.update_self]
      exact fun hzero => absurd hzero Bool.false_ne_true
    · rw [Function.update_of_ne hid]
      exact h.valid other
  · by_cases hid : other = id
    · rw [hid, Function.update_self]
      exact fun _ => rfl
    · rw [Function.update_of_ne hid]
      exact h.cleared other

theorem foldl_delete (ids : List (FixedBytes 32)) (keys : FixedBytes 32 → DeviceKey)
    (id : FixedBytes 32) :
    ids.foldl (fun keys id => Function.update keys id .zero) keys id =
      if id ∈ ids then .zero else keys id := by
  induction ids generalizing keys with
  | nil => rfl
  | cons first ids ih =>
      rw [List.foldl_cons, ih]
      by_cases hmem : id ∈ ids
      · simp [hmem]
      · by_cases hid : id = first
        · simp [hid]
        · simp [hmem, hid]

-- The bulk delete reaches everything.
theorem KeySet.deleted (h : KeySet L keys ids) :
    ids.foldl (fun keys id => Function.update keys id .zero) keys = fun _ => .zero := by
  funext id
  rw [foldl_delete]
  by_cases hid : id ∈ ids
  · rw [if_pos hid]
  · rw [if_neg hid]
    rw [h.listed, Bool.not_eq_true] at hid
    exact h.cleared id hid

end KeySet

section Runs

variable {L : Curve} {v v' : P256Validator} {tx : Tx} {a : Address} {before rest : List Tx}

-- Nobody else's calls count.
theorem Did.frame (h : Did L v tx v') (hsender : tx.sender ≠ a) :
    v'.keys a = v.keys a ∧ v'.keyIds a = v.keyIds a := by
  cases h with
  | reverted => exact ⟨rfl, rfl⟩
  | enrolled | revoked | uninstalled => exact set_of_ne (Ne.symm hsender)

theorem Did.keySet (h : Did L v tx v') (hset : KeySet L (v.keys a) (v.keyIds a)) :
    KeySet L (v'.keys a) (v'.keyIds a) := by
  by_cases hsender : tx.sender = a
  · subst hsender
    cases h with
    | reverted => exact hset
    | enrolled hcall hvalid hfree =>
        rw [set_keys, set_keyIds]
        exact hset.enroll hvalid hfree
    | revoked =>
        rw [set_keys, set_keyIds]
        exact hset.revoke
    | uninstalled =>
        rw [set_keys, set_keyIds, hset.deleted]
        exact .empty
  · obtain ⟨hkeys, hids⟩ := h.frame hsender
    rw [hkeys, hids]
    exact hset

-- What is revoked is listed, so where more than one was listed one is left.
theorem Did.some_left (h : Did L v tx v') (hset : KeySet L (v.keys a) (v.keyIds a))
    (hsome : v.keyIds a ≠ []) (hkept : ¬(tx.sender = a ∧ tx.call = .onUninstall)) :
    v'.keyIds a ≠ [] := by
  by_cases hsender : tx.sender = a
  · subst hsender
    cases h with
    | reverted => exact hsome
    | enrolled => simp
    | @revoked id hcall henrolled hmore =>
        have hperm : (swapPopFrom id (v.keyIds tx.sender) (v.keyIds tx.sender).length 0).Perm
            ((v.keyIds tx.sender).erase id) := swapPopFrom_perm (Nat.zero_add _) List.not_mem_nil
        have hlength := hperm.length_eq
        have hpositive := List.length_pos_iff.mpr hsome
        rw [List.length_erase_of_mem ((hset.listed id).mpr henrolled)] at hlength
        rw [set_keyIds, ← List.length_pos_iff]
        omega
    | uninstalled hcall => exact absurd ⟨rfl, hcall⟩ hkept
  · rw [(h.frame hsender).2]
    exact hsome

theorem run_concat : run L (before ++ [tx]) = ((run L before).transact L tx).2 :=
  final_append before [tx] deployed

theorem keySet_run (L : Curve) (txs : List Tx) (a : Address) :
    KeySet L ((run L txs).keys a) ((run L txs).keyIds a) :=
  @final_invariant _ _ _ (transact L) (fun v => KeySet L (v.keys a) (v.keyIds a)) _ .empty
    (fun v tx => (transact_did L v tx).keySet) txs

theorem some_left_run (hsome : (run L before).keyIds a ≠ [])
    (hkept : ∀ tx ∈ rest, ¬(tx.sender = a ∧ tx.call = .onUninstall)) :
    (run L (before ++ rest)).keyIds a ≠ [] := by
  induction rest using List.reverseRecOn with
  | nil => rwa [List.append_nil]
  | append_singleton rest tx ih =>
      rw [← List.append_assoc, run_concat]
      have hleft := ih fun tx' htx => hkept tx' (List.mem_append_left _ htx)
      exact (transact_did L _ tx).some_left (keySet_run L _ a) hleft
        (hkept tx List.mem_concat_self)

theorem toBytes32_bytes {slice : Bytes} (h : slice.length = 32) : (toBytes32 slice).bytes = slice := by
  have htake : (slice ++ List.replicate 32 0).take 32 = slice := by
    rw [List.take_append_of_le_length h.ge, List.take_of_length_le h.le]
  exact htake

theorem toBytes32_eq (b : FixedBytes 32) : toBytes32 b.bytes = b :=
  FixedBytes.ext (toBytes32_bytes b.length_bytes)

theorem take_words (id r s : FixedBytes 32) :
    (id.bytes ++ r.bytes ++ s.bytes).take 32 = id.bytes ∧
    ((id.bytes ++ r.bytes ++ s.bytes).drop 32).take 32 = r.bytes ∧
    ((id.bytes ++ r.bytes ++ s.bytes).drop 64).take 32 = s.bytes := by
  have hid := id.length_bytes
  have hr := r.length_bytes
  have hs := s.length_bytes
  refine ⟨?_, ?_, ?_⟩
  · rw [List.append_assoc, List.take_append_of_le_length hid.ge, List.take_of_length_le hid.le]
  · rw [List.append_assoc, List.drop_append_of_le_length hid.ge, List.drop_of_length_le hid.le,
      List.nil_append, List.take_append_of_le_length hr.ge, List.take_of_length_le hr.le]
  · rw [List.drop_append, List.drop_of_length_le (by simp), List.nil_append]
    simp

-- What is verified is a signature of three words, by a key that is enrolled.
theorem verify_eq_true {hash : FixedBytes 32} {signature : Bytes} :
    v.verify L a hash signature = true ↔ ∃ id r s : FixedBytes 32,
      signature = id.bytes ++ r.bytes ++ s.bytes ∧ (v.keys a id).enrolled = true ∧
      L.verify hash r s (v.keys a id).x (v.keys a id).y = true := by
  constructor
  · intro h
    unfold verify at h
    dsimp only at h
    split_ifs at h with hlength henrolled
    rw [not_not] at hlength
    rw [Bool.not_eq_true', Bool.not_eq_false] at henrolled
    refine ⟨_, _, _, ?_, henrolled, h⟩
    rw [toBytes32_bytes (by simp [hlength]), toBytes32_bytes (by simp [hlength]),
      toBytes32_bytes (by simp [hlength])]
    have hdrop : (signature.drop 64).take 32 = signature.drop 64 :=
      List.take_of_length_le (by simp [hlength])
    have hmiddle : (signature.drop 32).take 32 ++ signature.drop 64 = signature.drop 32 := by
      have hsplit := List.take_append_drop 32 (signature.drop 32)
      rwa [List.drop_drop] at hsplit
    rw [hdrop, List.append_assoc, hmiddle, List.take_append_drop]
  · rintro ⟨id, r, s, rfl, henrolled, hverify⟩
    obtain ⟨hid, hr, hs⟩ := take_words id r s
    unfold verify
    rw [if_neg (by simp)]
    dsimp only
    rw [hid, hr, hs, toBytes32_eq, toBytes32_eq, toBytes32_eq, henrolled]
    exact hverify

end Runs

-- In every run, each account's list has every enrolled key once, each key is valid and under its own
-- id, and what is not enrolled is cleared. Once there is a key there is one until the module is
-- uninstalled, when all go. Nobody else's calls change them, and what is verified is three words,
-- the first of which is a listed key that the signature is good under.
theorem keys_are_listed (L : Curve) (txs : List Tx) (a : Address) :
    KeySet L ((run L txs).keys a) ((run L txs).keyIds a) ∧
    (∀ before rest, txs = before ++ rest → (run L before).keyIds a ≠ [] →
      (∀ tx ∈ rest, ¬(tx.sender = a ∧ tx.call = .onUninstall)) → (run L txs).keyIds a ≠ []) ∧
    (∀ x ∈ trace (transact L) txs deployed, x.input.sender = a → x.input.call = .onUninstall →
      x.after.keyIds a = [] ∧ ∀ id, x.after.keys a id = .zero) ∧
    (∀ x ∈ trace (transact L) txs deployed, x.input.sender ≠ a →
      x.after.keys a = x.before.keys a ∧ x.after.keyIds a = x.before.keyIds a) ∧
    ∀ hash signature, (run L txs).verify L a hash signature = true ↔
      signature.length = 96 ∧ ∃ id r s : FixedBytes 32, signature = id.bytes ++ r.bytes ++ s.bytes ∧
        id ∈ (run L txs).keyIds a ∧
        L.verify hash r s ((run L txs).keys a id).x ((run L txs).keys a id).y = true := by
  have hset := keySet_run L txs a
  refine ⟨hset, ?_, ?_, ?_, fun hash signature => ?_⟩
  · rintro before rest rfl hsome hkept
    exact some_left_run hsome hkept
  · rintro x hx rfl hcall
    obtain ⟨before, tx, rest, rfl, rfl⟩ := exists_of_mem_trace hx
    have hdeleted := (keySet_run L before tx.sender).deleted
    have hgone : ((run L before).transact L tx).2 = (run L before).set tx.sender
        (fun _ => .zero) [] := by
      rw [← hdeleted, transact, outcome, show tx.call = .onUninstall from hcall]
      rfl
    change ((run L before).transact L tx).2.keyIds tx.sender = [] ∧
      ∀ id, ((run L before).transact L tx).2.keys tx.sender id = .zero
    rw [hgone, set_keyIds, set_keys]
    exact ⟨rfl, fun _ => rfl⟩
  · intro x hx hsender
    obtain ⟨before, tx, rest, rfl, rfl⟩ := exists_of_mem_trace hx
    exact (transact_did L (run L before) tx).frame hsender
  · rw [verify_eq_true]
    constructor
    · rintro ⟨id, r, s, rfl, henrolled, hverify⟩
      exact ⟨by simp, id, r, s, rfl, (hset.listed id).mpr henrolled, hverify⟩
    · rintro ⟨-, id, r, s, rfl, hlisted, hverify⟩
      exact ⟨id, r, s, rfl, (hset.listed id).mp hlisted, hverify⟩

end P256Validator

end Zbacs.Contracts
