import Mathlib.Data.List.Nodup
import Mathlib.Data.List.Range
import Zbacs.Contracts.Chain
import Zbacs.Core.Reference

namespace Zbacs.Contracts

open Zbacs.Lib

-- The terms that are submitted, whether they land or not.
def submitted (txs : List Tx) : List AccessGrant :=
  txs.filterMap fun tx => match tx.call with
    | .grant g _ => some g
    | _ => none

-- The grants on record, and those of them for an owner.
def recorded (log : List Mined) : List Landed := log.filterMap landed

def recordedFor (owner : Address) (ls : List Landed) : List Landed :=
  ls.filter fun l => l.record.owner = owner

-- What may become of a record once it is made.
def Kept (r r' : GrantRecord) : Prop :=
  r' = r ∨ (r' = { r with opens := r.opens + 1 } ∧ r.opens.toNat + 1 < 2 ^ 16) ∨
    (r.revoked = false ∧ r' = { r with revoked := true })

-- No two different terms among these have one struct hash.
def CollisionFree (d : Deployment) (gs : List AccessGrant) : Prop :=
  ∀ g ∈ gs, ∀ g' ∈ gs, g.hashStruct d = g'.hashStruct d → g = g'

-- What a transaction does to the policy, and the grant it puts on record.
inductive Wrote (d : Deployment) (c : Chain) (tx : Tx) : Option Landed → AccessPolicy → Prop where
  | kept : Wrote d c tx none c.policy
  | revoked {grantId : FixedBytes 32} (howner : (c.policy.grants grantId).owner ≠ .zero) :
      Wrote d c tx none (c.policy.write grantId { c.policy.grants grantId with revoked := true })
  | opened {grantId : FixedBytes 32} (hvalid : c.policy.isValid tx.msg.timestamp grantId = true)
      (hbound : (c.policy.grants grantId).opens.toNat + 1 < 2 ^ 16) :
      Wrote d c tx none (c.policy.write grantId { c.policy.grants grantId with
        opens := (c.policy.grants grantId).opens + 1 })
  | granted {g : AccessGrant} {ownerSig : Bytes} {p' : AccessPolicy} (hcall : tx.call = .grant g ownerSig)
      (hgrants : AccessPolicy.Grants d tx.msg c.registry g ownerSig c.policy p') :
      Wrote d c tx (some ⟨g.hashStruct d, g,
        AccessPolicy.recordOf g (c.registry.files g.fileId).owner⟩) p'

theorem transact_wrote (d : Deployment) (c : Chain) (tx : Tx) :
    Wrote d c tx (landed (taken (Chain.transact d) c tx)) (c.transact d tx).2.policy := by
  have hdid := transact_did d c tx
  unfold taken
  generalize c.transact d tx = out at hdid ⊢
  have hnone : ∀ (receipt : Receipt) (after : Chain),
      (∀ grantId fileId key permission expiry,
        receipt ≠ .policy (.granted grantId fileId key permission expiry)) →
      landed ⟨c, tx, receipt, after⟩ = none := by
    intro receipt after hreceipt
    unfold landed
    split
    · rename_i hgranted
      exact absurd hgranted (hreceipt _ _ _ _ _)
    · rfl
  cases hdid with
  | registryReverted | policyReverted | registered | bumped | retired =>
      rw [hnone _ _ (by simp)]
      exact .kept
  | revoked hcall howner =>
      rw [hnone _ _ (by simp)]
      exact .revoked howner
  | opened hcall hvalid hbound =>
      rw [hnone _ _ (by simp)]
      exact .opened hvalid hbound
  | @granted g ownerSig p' hcall hgrants =>
      have hlanded : landed ⟨c, tx, .policy (.granted (g.hashStruct d) g.fileId g.deviceKeyHash
          g.permission g.expiry), ⟨c.registry, p'⟩⟩ = some ⟨g.hashStruct d, g,
            AccessPolicy.recordOf g (c.registry.files g.fileId).owner⟩ := by
        simp [landed, hcall, hgrants.result]
      rw [hlanded]
      exact .granted hcall hgrants

-- The counters and the records, and the grants they stand for.
structure Books (d : Deployment) (ls : List Landed) (p : AccessPolicy) : Prop where
  nonces : ∀ owner, (recordedFor owner ls).map (fun l => l.terms.grantNonce.toNat) =
    List.range (p.nonces owner).toNat
  used : ∀ n, p.usedRequestNonce n = true ↔ n ∈ ls.map fun l => l.terms.requestNonce
  requests : (ls.map fun l => l.terms.requestNonce).Nodup
  stored : ∀ grantId, (p.grants grantId).owner ≠ .zero ↔ grantId ∈ ls.map fun l => l.grantId
  ids : ∀ l ∈ ls, l.grantId = l.terms.hashStruct d
  distinct : (ls.map fun l => l.grantId).Nodup
  revoked : ∀ grantId, (p.grants grantId).revoked = true → (p.grants grantId).owner ≠ .zero
  opens : ∀ grantId, (p.grants grantId).maxOpens ≠ 0 →
    (p.grants grantId).opens ≤ (p.grants grantId).maxOpens

section Books

variable {d : Deployment} {c : Chain} {tx : Tx} {ls : List Landed} {g : AccessGrant}
  {ownerSig : Bytes} {p p' : AccessPolicy}

-- A grant that lands has not landed before: its request nonce is new.
theorem Books.fresh (h : Books d ls p)
    (hhash : ∀ l ∈ ls, l.terms.hashStruct d = g.hashStruct d → l.terms = g)
    (hnew : p.usedRequestNonce g.requestNonce = false) :
    (p.grants (g.hashStruct d)).owner = .zero := by
  by_contra howner
  obtain ⟨l, hl, hid⟩ := List.mem_map.mp ((h.stored _).mp howner)
  have hterms : l.terms = g := hhash l hl ((h.ids l hl).symm.trans hid)
  have hused : p.usedRequestNonce g.requestNonce = true :=
    (h.used _).mpr (List.mem_map.mpr ⟨l, hl, by rw [hterms]⟩)
  rw [hnew] at hused
  cases hused

-- One record is written again, under the same owner.
theorem Books.write (h : Books d ls p) {grantId : FixedBytes 32} {r : GrantRecord}
    (howner : (p.grants grantId).owner ≠ .zero) (hsame : r.owner = (p.grants grantId).owner)
    (hopens : r.maxOpens ≠ 0 → r.opens ≤ r.maxOpens) : Books d ls (p.write grantId r) := by
  refine ⟨h.nonces, h.used, h.requests, fun id => ?_, h.ids, h.distinct, fun id hrevoked => ?_,
    fun id => ?_⟩
  · by_cases hid : id = grantId
    · rw [hid, AccessPolicy.write_self, hsame]
      exact h.stored grantId
    · rw [AccessPolicy.write_of_ne hid]
      exact h.stored id
  · by_cases hid : id = grantId
    · rwa [hid, AccessPolicy.write_self, hsame]
    · rw [AccessPolicy.write_of_ne hid] at hrevoked ⊢
      exact h.revoked id hrevoked
  · by_cases hid : id = grantId
    · rw [hid, AccessPolicy.write_self]
      exact hopens
    · rw [AccessPolicy.write_of_ne hid]
      exact h.opens id

theorem toNat_add_one {n : BitVec 256} (h : n.uaddOverflow 1 = false) :
    (n + 1).toNat = n.toNat + 1 := by
  have hlt : n.toNat + (1 : BitVec 256).toNat < 2 ^ 256 := Nat.not_le.mp (of_decide_eq_false h)
  rw [BitVec.toNat_add, Nat.mod_eq_of_lt hlt]
  rfl

theorem Books.granted (h : Books d ls p)
    (hhash : ∀ l ∈ ls, l.terms.hashStruct d = g.hashStruct d → l.terms = g)
    (hgrants : AccessPolicy.Grants d tx.msg c.registry g ownerSig p p') :
    Books d (ls ++ [⟨g.hashStruct d, g,
      AccessPolicy.recordOf g (c.registry.files g.fileId).owner⟩]) p' := by
  have hfresh := h.fresh hhash hgrants.fresh
  have hid : g.hashStruct d ∉ ls.map fun l => l.grantId := fun hmem =>
    (h.stored _).mpr hmem hfresh
  have hnonce : g.requestNonce ∉ ls.map fun l => l.terms.requestNonce := by
    intro hmem
    have hused := (h.used _).mpr hmem
    rw [hgrants.fresh] at hused
    cases hused
  rw [hgrants.result]
  refine ⟨fun owner => ?_, fun n => ?_, ?_, fun id => ?_, fun l hl => ?_, ?_, fun id hrevoked => ?_,
    fun id => ?_⟩
  · by_cases howner : (c.registry.files g.fileId).owner = owner
    · subst howner
      have hnext := toNat_add_one hgrants.bounded
      simp only [recordedFor, List.filter_append, List.map_append, Function.update_self, hnext,
        List.range_succ, ← hgrants.nonce ▸ h.nonces _]
      simp [AccessPolicy.recordOf]
    · simp only [recordedFor, List.filter_append, List.map_append,
        Function.update_of_ne (Ne.symm howner), ← h.nonces owner]
      simp [AccessPolicy.recordOf, howner]
  · by_cases hn : n = g.requestNonce
    · simp [hn]
    · simp only [Function.update_of_ne hn, h.used, List.map_append, List.mem_append]
      simp [hn]
  · rw [List.map_append]
    exact List.concat_eq_append ▸ h.requests.concat hnonce
  · by_cases hsame : id = g.hashStruct d
    · simpa [hsame, AccessPolicy.recordOf] using hgrants.registered
    · simp only [Function.update_of_ne hsame, h.stored, List.map_append, List.mem_append]
      simp [hsame]
  · rcases List.mem_append.mp hl with hl | hl
    · exact h.ids l hl
    · rw [List.mem_singleton.mp hl]
  · rw [List.map_append]
    exact List.concat_eq_append ▸ h.distinct.concat hid
  · by_cases hsame : id = g.hashStruct d
    · simp [hsame, AccessPolicy.recordOf] at hrevoked
    · simp only [Function.update_of_ne hsame] at hrevoked ⊢
      exact h.revoked id hrevoked
  · by_cases hsame : id = g.hashStruct d
    · simp [hsame, AccessPolicy.recordOf]
    · simp only [Function.update_of_ne hsame]
      exact h.opens id

theorem toNat_opens {r : GrantRecord} (h : r.opens.toNat + 1 < 2 ^ 16) :
    (r.opens + 1).toNat = r.opens.toNat + 1 := by
  rw [UInt16.toNat_add]
  exact Nat.mod_eq_of_lt h

theorem Books.wrote (h : Books d ls c.policy) {landed : Option Landed}
    (hwrote : Wrote d c tx landed p')
    (hhash : ∀ g ownerSig, tx.call = .grant g ownerSig →
      ∀ l ∈ ls, l.terms.hashStruct d = g.hashStruct d → l.terms = g) :
    Books d (ls ++ landed.toList) p' := by
  cases hwrote with
  | kept =>
      rw [Option.toList_none, List.append_nil]
      exact h
  | @revoked grantId howner =>
      rw [Option.toList_none, List.append_nil]
      exact h.write howner rfl (h.opens grantId)
  | @opened grantId hvalid hbound =>
      rw [Option.toList_none, List.append_nil]
      obtain ⟨howner, -, -, -, hbudget⟩ := AccessPolicy.isValid_eq_true hvalid
      refine h.write howner rfl fun hmax => ?_
      have hlt := UInt16.lt_iff_toNat_lt.mp (hbudget.resolve_left hmax)
      rw [UInt16.le_iff_toNat_le, toNat_opens hbound]
      exact hlt
  | granted hcall hgrants => exact h.granted (hhash _ _ hcall) hgrants

-- What a transaction makes of a record that is there.
theorem Books.keeps (h : Books d ls c.policy) {landed : Option Landed}
    (hwrote : Wrote d c tx landed p')
    (hhash : ∀ g ownerSig, tx.call = .grant g ownerSig →
      ∀ l ∈ ls, l.terms.hashStruct d = g.hashStruct d → l.terms = g)
    {id : FixedBytes 32} (hstored : (c.policy.grants id).owner ≠ .zero) :
    Kept (c.policy.grants id) (p'.grants id) := by
  cases hwrote with
  | kept => exact .inl rfl
  | @revoked grantId howner =>
      by_cases hid : id = grantId
      · subst hid
        rw [AccessPolicy.write_self]
        cases hrevoked : (c.policy.grants id).revoked with
        | false => exact .inr (.inr ⟨hrevoked, rfl⟩)
        | true => exact .inl (by rw [← hrevoked])
      · exact .inl (AccessPolicy.write_of_ne hid)
  | @opened grantId hvalid hbound =>
      by_cases hid : id = grantId
      · subst hid
        rw [AccessPolicy.write_self]
        exact .inr (.inl ⟨rfl, hbound⟩)
      · exact .inl (AccessPolicy.write_of_ne hid)
  | @granted g ownerSig p' hcall hgrants =>
      have hid : id ≠ g.hashStruct d := by
        rintro rfl
        exact hstored (h.fresh (hhash g ownerSig hcall) hgrants.fresh)
      rw [hgrants.result]
      exact .inl (Function.update_of_ne hid ..)

theorem Kept.revoked {r r' : GrantRecord} (h : Kept r r') (hrevoked : r.revoked = true) :
    r'.revoked = true := by
  rcases h with rfl | ⟨rfl, -⟩ | ⟨-, rfl⟩
  · exact hrevoked
  · exact hrevoked
  · rfl

end Books

section Runs

variable {d : Deployment} {before rest txs : List Tx} {tx : Tx}

theorem submitted_append : submitted (before ++ rest) = submitted before ++ submitted rest :=
  List.filterMap_append

theorem mem_submitted {g : AccessGrant} {ownerSig : Bytes} (h : tx.call = .grant g ownerSig) :
    g ∈ submitted [tx] := by
  simp [submitted, h]

theorem CollisionFree.left (h : CollisionFree d (submitted (before ++ rest))) :
    CollisionFree d (submitted before) := fun g hg g' hg' => by
  rw [submitted_append] at h
  exact h g (List.mem_append_left _ hg) g' (List.mem_append_left _ hg')

theorem run_concat : Chain.run d (before ++ [tx]) = ((Chain.run d before).transact d tx).2 :=
  final_append before [tx] Chain.deployed

theorem log_concat :
    Chain.log d (before ++ [tx]) =
      Chain.log d before ++ [taken (Chain.transact d) (Chain.run d before) tx] :=
  trace_append before [tx] Chain.deployed

theorem recorded_concat : recorded (Chain.log d (before ++ [tx])) = recorded (Chain.log d before) ++
    (landed (taken (Chain.transact d) (Chain.run d before) tx)).toList := by
  rw [log_concat, recorded, List.filterMap_append]
  cases h : landed (taken (Chain.transact d) (Chain.run d before) tx) <;> simp [h, recorded]

-- What is on record was submitted.
theorem recorded_submitted : ∀ l ∈ recorded (Chain.log d txs), l.terms ∈ submitted txs := by
  induction txs using List.reverseRecOn with
  | nil => exact fun l hl => absurd hl List.not_mem_nil
  | append_singleton before tx ih =>
      intro l hl
      rw [recorded_concat, List.mem_append] at hl
      rw [submitted_append, List.mem_append]
      refine hl.imp (ih l) fun hl => ?_
      have hwrote := transact_wrote d (Chain.run d before) tx
      generalize landed (taken (Chain.transact d) (Chain.run d before) tx) = out at hl hwrote
      generalize ((Chain.run d before).transact d tx).2.policy = policy at hwrote
      cases hwrote with
      | kept | revoked | opened => exact absurd hl List.not_mem_nil
      | granted hcall =>
          rw [List.mem_singleton.mp hl]
          exact mem_submitted hcall

theorem terms_of_hash (hhash : CollisionFree d (submitted (before ++ [tx]))) {g : AccessGrant}
    {ownerSig : Bytes} (hcall : tx.call = .grant g ownerSig) :
    ∀ l ∈ recorded (Chain.log d before), l.terms.hashStruct d = g.hashStruct d → l.terms = g := by
  intro l hl hsame
  rw [submitted_append] at hhash
  exact hhash _ (List.mem_append_left _ (recorded_submitted l hl)) _
    (List.mem_append_right _ (mem_submitted hcall)) hsame

theorem books_run (hhash : CollisionFree d (submitted txs)) :
    Books d (recorded (Chain.log d txs)) (Chain.run d txs).policy := by
  induction txs using List.reverseRecOn with
  | nil =>
      refine ⟨fun _ => rfl, fun n => ?_, List.nodup_nil, fun id => ?_,
        fun l hl => absurd hl List.not_mem_nil, List.nodup_nil, fun id h => ?_, fun id h => absurd rfl h⟩
      · exact iff_of_false Bool.false_ne_true List.not_mem_nil
      · exact iff_of_false (fun h => h rfl) List.not_mem_nil
      · cases h
  | append_singleton before tx ih =>
      rw [recorded_concat, run_concat]
      exact (ih hhash.left).wrote (transact_wrote d _ tx) fun g ownerSig => terms_of_hash hhash

theorem keeps_run (hhash : CollisionFree d (submitted (before ++ [tx]))) {id : FixedBytes 32}
    (hstored : ((Chain.run d before).policy.grants id).owner ≠ .zero) :
    Kept ((Chain.run d before).policy.grants id)
      ((Chain.run d (before ++ [tx])).policy.grants id) := by
  rw [run_concat]
  exact (books_run hhash.left).keeps (transact_wrote d _ tx) (fun g ownerSig => terms_of_hash hhash)
    hstored

-- Nothing that follows takes a revocation back.
theorem stays_revoked (hhash : CollisionFree d (submitted (before ++ rest))) {id : FixedBytes 32}
    (h : ((Chain.run d before).policy.grants id).revoked = true) :
    ((Chain.run d (before ++ rest)).policy.grants id).revoked = true := by
  induction rest using List.reverseRecOn with
  | nil => rwa [List.append_nil]
  | append_singleton rest tx ih =>
      rw [← List.append_assoc] at hhash ⊢
      have hbefore := ih hhash.left
      exact (keeps_run hhash ((books_run hhash.left).revoked id hbefore)).revoked hbefore

end Runs

-- After any transactions by anyone, landed or reverted: an owner's nonce counts the grants on
-- record for the owner, which carry the nonces before it in turn; the request nonces in use are
-- theirs, one each; a record is made once, and after that only its opens are counted and it is
-- revoked, for good; and no more opens are counted than were allowed.
theorem grants_on_record (d : Deployment) (txs : List Tx) (hhash : CollisionFree d (submitted txs)) :
    (∀ owner,
      ((Chain.run d txs).policy.nonces owner).toNat =
        (recordedFor owner (recorded (Chain.log d txs))).length ∧
      (recordedFor owner (recorded (Chain.log d txs))).map (fun l => l.terms.grantNonce.toNat) =
        List.range ((Chain.run d txs).policy.nonces owner).toNat) ∧
    (∀ n, (Chain.run d txs).policy.usedRequestNonce n = true ↔
      n ∈ (recorded (Chain.log d txs)).map fun l => l.terms.requestNonce) ∧
    ((recorded (Chain.log d txs)).map fun l => l.terms.requestNonce).Nodup ∧
    (∀ id, ((Chain.run d txs).policy.grants id).owner ≠ .zero ↔
      id ∈ (recorded (Chain.log d txs)).map fun l => l.grantId) ∧
    ((recorded (Chain.log d txs)).map fun l => l.grantId).Nodup ∧
    (∀ x ∈ Chain.log d txs, ∀ id, (x.before.policy.grants id).owner ≠ .zero →
      Kept (x.before.policy.grants id) (x.after.policy.grants id)) ∧
    (∀ before rest id timestamp, txs = before ++ rest →
      ((Chain.run d before).policy.grants id).revoked = true →
      (Chain.run d txs).policy.isValid timestamp id = false) ∧
    ∀ id, ((Chain.run d txs).policy.grants id).maxOpens ≠ 0 →
      ((Chain.run d txs).policy.grants id).opens ≤ ((Chain.run d txs).policy.grants id).maxOpens := by
  have h := books_run hhash
  refine ⟨fun owner => ⟨?_, h.nonces owner⟩, h.used, h.requests, h.stored, h.distinct, ?_, ?_, h.opens⟩
  · have hcount := congrArg List.length (h.nonces owner)
    rw [List.length_map, List.length_range] at hcount
    exact hcount.symm
  · intro x hx id hstored
    obtain ⟨before, tx, rest, rfl, rfl⟩ := exists_of_mem_trace hx
    rw [List.append_cons] at hhash
    have hkept := keeps_run hhash.left hstored
    rwa [run_concat] at hkept
  · rintro before rest id timestamp rfl hrevoked
    have hstays := stays_revoked hhash hrevoked
    unfold AccessPolicy.isValid
    exact if_pos (.inr hstays)

namespace Reference

def deployment : Deployment where
  keccak256 := Core.Reference.digest
  chainId := 31337
  verifyingContract := .replicate 20 9
  hashTypedDataV4 h := Core.Reference.digest ([0x19, 0x01] ++ h.bytes)

def owner : Address := .replicate 20 1

def msg (sender : Address) (timestamp : Nat) : Msg := ⟨sender, timestamp, fun _ _ _ => false⟩

def terms (grantNonce : BitVec 256) (requestNonce : UInt8) : AccessGrant where
  fileId := .replicate 32 2
  headerHash := .replicate 32 3
  deviceKeyHash := .replicate 32 4
  permission := 1
  notBefore := 1000
  expiry := 5000
  maxOpens := 1
  requestNonce := .replicate 16 requestNonce
  grantNonce := grantNonce

-- A file is registered, granted twice, and one of the grants is revoked.
def granting : List Tx :=
  [⟨msg owner 1000, .register (.replicate 32 2) (.replicate 32 3)⟩,
    ⟨msg owner 1100, .grant (terms 0 5) []⟩, ⟨msg owner 1200, .grant (terms 1 6) []⟩]

def revoking : List Tx := [⟨msg owner 1300, .revoke ((terms 0 5).hashStruct deployment)⟩]

theorem two_recorded : CollisionFree deployment (submitted (granting ++ revoking)) ∧
    (recordedFor owner (recorded (Chain.log deployment (granting ++ revoking)))).length = 2 ∧
    ∀ timestamp, (Chain.run deployment (granting ++ revoking)).policy.isValid timestamp
      ((terms 0 5).hashStruct deployment) = false := by
  have hhash : CollisionFree deployment (submitted (granting ++ revoking)) := by
    unfold CollisionFree
    decide +kernel
  obtain ⟨hnonces, -, -, -, -, -, hrevoked, -⟩ := grants_on_record deployment _ hhash
  refine ⟨hhash, ?_, fun timestamp => ?_⟩
  · rw [← (hnonces owner).1]
    decide +kernel
  · exact hrevoked _ [] _ timestamp (List.append_nil _).symm (by decide +kernel)

end Reference

end Zbacs.Contracts
