import Zbacs.Contracts.Chain.Files

namespace Zbacs.Contracts

open Zbacs.Lib

namespace AccessPolicy

variable {d : Deployment} {msg : Msg} {registry : FileRegistry} {g : AccessGrant} {ownerSig : Bytes}
  {p p' : AccessPolicy}

-- The checks are all there are.
theorem Grants.grant_eq (h : Grants d msg registry g ownerSig p p') :
    p.grant d msg registry g ownerSig =
      .ok (.granted (g.hashStruct d) g.fileId g.deviceKeyHash g.permission g.expiry, p') := by
  unfold grant
  dsimp only [FileRegistry.ownerOf, FileRegistry.currentVersion]
  have hsig : ¬(msg.sender ≠ (registry.files g.fileId).owner ∧
      !msg.isValidSignatureNow (registry.files g.fileId).owner
        (d.hashTypedDataV4 (g.hashStruct d)) ownerSig) := by
    rintro ⟨hsender, hsig⟩
    rcases h.authorised with hself | hsigned
    · exact hsender hself
    · rw [hsigned] at hsig
      exact absurd hsig Bool.false_ne_true
  rw [if_neg h.registered, if_neg (by rw [h.notRetired]; exact Bool.false_ne_true),
    if_neg (not_not.mpr h.current), if_neg (UInt8.not_lt.mpr h.permission),
    if_neg (UInt64.not_le.mpr h.window), if_neg (Nat.not_le.mpr h.unexpired),
    if_neg (not_not.mpr h.nonce), if_neg (by rw [h.fresh]; exact Bool.false_ne_true), if_neg hsig,
    if_neg (by rw [h.bounded]; exact Bool.false_ne_true), h.result]

end AccessPolicy

-- A transaction in this block that is not the owner's and carries no signature of the owner's.
structure Foreign (d : Deployment) (owner : Address) (timestamp : Nat) (tx : Tx) : Prop where
  timestamp : tx.msg.timestamp = timestamp
  sender : tx.msg.sender ≠ owner
  unsigned : ∀ g ownerSig, tx.call = .grant g ownerSig →
    tx.msg.isValidSignatureNow owner (d.hashTypedDataV4 (g.hashStruct d)) ownerSig = false

section Foreign

variable {d : Deployment} {owner : Address} {timestamp : Nat} {tx : Tx} {c : Chain}
  {rest : List Tx}

-- What others cannot touch of an owner's.
theorem Foreign.file (h : Foreign d owner timestamp tx) {fileId : FixedBytes 32}
    (hregistered : owner ≠ .zero) (howner : (c.registry.files fileId).owner = owner) :
    (c.transact d tx).2.registry.files fileId = c.registry.files fileId := by
  have hstep := transact_step d c tx fileId
  generalize (c.transact d tx).2.registry.files fileId = f' at hstep ⊢
  generalize registeredAs fileId (taken (Chain.transact d) c tx) = registration at hstep
  generalize bumpedTo fileId (taken (Chain.transact d) c tx) = bump at hstep
  cases hstep with
  | kept => rfl
  | registered hfree => exact absurd (howner.symm.trans hfree) hregistered
  | bumped hsome hsender | retired hsome hsender =>
      exact absurd (hsender.symm.trans howner) h.sender

theorem Foreign.nonces (h : Foreign d owner timestamp tx) :
    (c.transact d tx).2.policy.nonces owner = c.policy.nonces owner := by
  have hwrote := transact_wrote d c tx
  generalize (c.transact d tx).2.policy = p' at hwrote ⊢
  generalize landed (taken (Chain.transact d) c tx) = out at hwrote
  cases hwrote with
  | kept | revoked | opened => rfl
  | @granted g ownerSig p' hcall hgrants =>
      rw [hgrants.result]
      refine Function.update_of_ne ?_ ..
      rintro rfl
      rcases hgrants.authorised with hself | hsigned
      · exact h.sender hself
      · rw [h.unsigned g ownerSig hcall] at hsigned
        exact absurd hsigned Bool.false_ne_true

-- A request nonce is used up by the grants that land with it.
theorem transact_used (d : Deployment) (c : Chain) (tx : Tx) (n : FixedBytes 16) :
    (c.transact d tx).2.policy.usedRequestNonce n = true ↔ c.policy.usedRequestNonce n = true ∨
      ∃ l, landed (taken (Chain.transact d) c tx) = some l ∧ l.terms.requestNonce = n := by
  have hwrote := transact_wrote d c tx
  generalize (c.transact d tx).2.policy = p' at hwrote ⊢
  generalize landed (taken (Chain.transact d) c tx) = out at hwrote ⊢
  cases hwrote with
  | kept | revoked | opened => simp [AccessPolicy.write]
  | @granted g ownerSig p' hcall hgrants =>
      rw [hgrants.result]
      by_cases hn : n = g.requestNonce
      · simp [hn]
      · simp [Function.update_of_ne hn, Ne.symm hn]

theorem recorded_cons (x : Mined) (log : List Mined) :
    recorded (x :: log) = (landed x).toList ++ recorded log := by
  rw [recorded, List.filterMap_cons]
  cases landed x <;> rfl

theorem run_append (txs rest : List Tx) :
    Chain.run d (txs ++ rest) = final (Chain.transact d) rest (Chain.run d txs) :=
  final_append txs rest Chain.deployed

-- What a sequence of such transactions leaves of what the owner's grant is checked against.
theorem foreign_run {fileId : FixedBytes 32} (hregistered : owner ≠ .zero)
    (hforeign : ∀ tx ∈ rest, Foreign d owner timestamp tx)
    (howner : (c.registry.files fileId).owner = owner) (n : FixedBytes 16) :
    (final (Chain.transact d) rest c).registry.files fileId = c.registry.files fileId ∧
    (final (Chain.transact d) rest c).policy.nonces owner = c.policy.nonces owner ∧
    ((final (Chain.transact d) rest c).policy.usedRequestNonce n = true ↔
      c.policy.usedRequestNonce n = true ∨
        ∃ l ∈ recorded (trace (Chain.transact d) rest c), l.terms.requestNonce = n) := by
  induction rest generalizing c with
  | nil => simp [final, trace, recorded]
  | cons tx rest ih =>
      obtain ⟨hnow, hlater⟩ := List.forall_mem_cons.mp hforeign
      have hfile := hnow.file hregistered howner
      obtain ⟨hfiles, hnonces, hused⟩ := ih hlater (hfile ▸ howner)
      refine ⟨hfiles.trans hfile, hnonces.trans hnow.nonces, ?_⟩
      rw [final, hused, transact_used, trace, recorded_cons, or_assoc]
      simp [or_and_right, exists_or]

end Foreign

-- A grant the owner could land now still lands after what others send in the same block, unless one
-- of them has landed a grant with its request nonce.
theorem owner_grant_lands_after (d : Deployment) (txs rest : List Tx) (msg : Msg) (g : AccessGrant)
    (ownerSig : Bytes)
    (howner : ((Chain.run d txs).registry.files g.fileId).owner = msg.sender)
    (hlands : ∃ out, (Chain.run d txs).policy.grant d msg (Chain.run d txs).registry g ownerSig =
      .ok out)
    (hforeign : ∀ tx ∈ rest, Foreign d msg.sender msg.timestamp tx) :
    (∃ out, (Chain.run d (txs ++ rest)).policy.grant d msg (Chain.run d (txs ++ rest)).registry g
      ownerSig = .ok out) ↔
    ∀ l ∈ recorded (trace (Chain.transact d) rest (Chain.run d txs)),
      l.terms.requestNonce ≠ g.requestNonce := by
  obtain ⟨⟨event, p'⟩, hgrant⟩ := hlands
  obtain ⟨-, h⟩ := AccessPolicy.grant_eq_ok hgrant
  have hsome : msg.sender ≠ .zero := howner ▸ h.registered
  obtain ⟨hfile, hnonces, hused⟩ := foreign_run hsome hforeign howner g.requestNonce
  rw [← run_append] at hfile hnonces hused
  constructor
  · rintro ⟨⟨event', p''⟩, hgrant'⟩ l hl hsame
    obtain ⟨-, h'⟩ := AccessPolicy.grant_eq_ok hgrant'
    have htaken := hused.mpr (.inr ⟨l, hl, hsame⟩)
    exact Bool.false_ne_true (h'.fresh.symm.trans htaken)
  · intro hnone
    have hfresh : (Chain.run d (txs ++ rest)).policy.usedRequestNonce g.requestNonce = false := by
      rw [← Bool.not_eq_true, hused]
      rintro (htaken | ⟨l, hl, hsame⟩)
      · exact Bool.false_ne_true (h.fresh.symm.trans htaken)
      · exact hnone l hl hsame
    have hnonce : g.grantNonce = (Chain.run d (txs ++ rest)).policy.nonces
        ((Chain.run d (txs ++ rest)).registry.files g.fileId).owner := by
      rw [hfile, howner, hnonces, ← howner]
      exact h.nonce
    refine ⟨_, AccessPolicy.Grants.grant_eq ⟨hfile ▸ h.registered, hfile ▸ h.notRetired,
      hfile ▸ h.current, h.permission, h.window, h.unexpired, hnonce, hfresh, ?_, h.bounded, rfl⟩⟩
    rw [hfile]
    exact h.authorised

namespace Reference

def rival : Address := .replicate 20 8

-- Someone else registers a file and grants it, with the nonce of the owner's next grant.
def frontrunning : List Tx :=
  [⟨msg rival 1100, .register (.replicate 32 7) (.replicate 32 3)⟩,
    ⟨msg rival 1100, .grant { terms 0 5 with fileId := .replicate 32 7 } []⟩]

theorem foreign_of_rival {tx : Tx} (htimestamp : tx.msg.timestamp = 1100)
    (hsender : tx.msg.sender = rival) (hunsigned : tx.msg.isValidSignatureNow = fun _ _ _ => false) :
    Foreign deployment owner 1100 tx :=
  ⟨htimestamp, by rw [hsender]; decide, fun _ _ _ => by rw [hunsigned]⟩

theorem frontrunning_foreign : ∀ tx ∈ frontrunning, Foreign deployment owner 1100 tx := by
  intro tx htx
  simp only [frontrunning, List.mem_cons, List.not_mem_nil, or_false] at htx
  rcases htx with rfl | rfl <;> exact foreign_of_rival rfl rfl rfl

-- The same transactions, the nonce another.
def crowded : List Tx :=
  [⟨msg rival 1100, .register (.replicate 32 7) (.replicate 32 3)⟩,
    ⟨msg rival 1100, .grant { terms 0 6 with fileId := .replicate 32 7 } []⟩]

theorem crowded_foreign : ∀ tx ∈ crowded, Foreign deployment owner 1100 tx := by
  intro tx htx
  simp only [crowded, List.mem_cons, List.not_mem_nil, or_false] at htx
  rcases htx with rfl | rfl <;> exact foreign_of_rival rfl rfl rfl

def lands (txs : List Tx) : Bool :=
  ((Chain.run deployment txs).policy.grant deployment (msg owner 1100)
    (Chain.run deployment txs).registry (terms 0 5) []).toOption.isSome

theorem lands_eq {txs : List Tx} : lands txs = true ↔
    ∃ out, (Chain.run deployment txs).policy.grant deployment (msg owner 1100)
      (Chain.run deployment txs).registry (terms 0 5) [] = .ok out := by
  unfold lands
  cases (Chain.run deployment txs).policy.grant deployment (msg owner 1100)
    (Chain.run deployment txs).registry (terms 0 5) [] <;> simp [Except.toOption]

theorem rival_takes_nonce :
    ¬∀ (d : Deployment) (txs rest : List Tx) (msg : Msg) (g : AccessGrant) (ownerSig : Bytes),
      ((Chain.run d txs).registry.files g.fileId).owner = msg.sender →
      (∃ out, (Chain.run d txs).policy.grant d msg (Chain.run d txs).registry g ownerSig = .ok out) →
      (∀ tx ∈ rest, Foreign d msg.sender msg.timestamp tx) →
      ∃ out, (Chain.run d (txs ++ rest)).policy.grant d msg (Chain.run d (txs ++ rest)).registry g
        ownerSig = .ok out := by
  intro h
  have hlands := h deployment (granting.take 1) frontrunning (msg owner 1100) (terms 0 5) []
    (by decide +kernel) (lands_eq.mp (by decide +kernel)) frontrunning_foreign
  have hblocked : lands (granting.take 1 ++ frontrunning) = false := by decide +kernel
  rw [lands_eq.mpr hlands] at hblocked
  cases hblocked

theorem lands_among_others : ∃ out, (Chain.run deployment (granting.take 1 ++ crowded)).policy.grant
    deployment (msg owner 1100) (Chain.run deployment (granting.take 1 ++ crowded)).registry
    (terms 0 5) [] = .ok out := by
  refine (owner_grant_lands_after deployment (granting.take 1) crowded (msg owner 1100) (terms 0 5) []
    (by decide +kernel) (lands_eq.mp (by decide +kernel)) crowded_foreign).mpr ?_
  decide +kernel

end Reference

end Zbacs.Contracts
