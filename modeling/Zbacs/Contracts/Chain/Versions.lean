import Zbacs.Contracts.Chain.Grants

namespace Zbacs.Contracts

open Zbacs.Lib

-- What holds of a record in the block it is made in, by this transaction with these terms.
structure WellFounded (d : Deployment) (c : Chain) (tx : Tx) (g : AccessGrant) (r : GrantRecord) :
    Prop where
  record : r = { AccessPolicy.recordOf g (c.registry.files r.fileId).owner with
    opens := r.opens, revoked := r.revoked }
  registered : (c.registry.files r.fileId).owner ≠ .zero
  notRetired : (c.registry.files r.fileId).retired = false
  owner : r.owner = (c.registry.files r.fileId).owner
  current : r.headerHash = (c.registry.files r.fileId).headerHash
  window : r.notBefore < r.expiry
  unexpired : tx.msg.timestamp < r.expiry.toNat
  permission : r.permission ≤ Permission.edit.toUInt8
  authorised : tx.msg.sender = r.owner ∨ ∃ ownerSig, tx.call = .grant g ownerSig ∧
    tx.msg.isValidSignatureNow r.owner (d.hashTypedDataV4 (g.hashStruct d)) ownerSig = true

-- Where a record comes from.
def Founded (d : Deployment) (txs : List Tx) (id : FixedBytes 32) (r : GrantRecord) : Prop :=
  ∃ before tx rest g, txs = before ++ tx :: rest ∧ g.hashStruct d = id ∧
    landed (taken (Chain.transact d) (Chain.run d before) tx) =
      some ⟨id, g, { r with opens := 0, revoked := false }⟩ ∧
    WellFounded d (Chain.run d before) tx g r

section Records

variable {d : Deployment} {c : Chain} {tx : Tx} {g : AccessGrant} {r : GrantRecord} {txs : List Tx}
  {id : FixedBytes 32}

theorem Founded.concat (h : Founded d txs id r) (tx : Tx) : Founded d (txs ++ [tx]) id r := by
  obtain ⟨before, tx', rest, g, rfl, hfounded⟩ := h
  exact ⟨before, tx', rest ++ [tx], g, by rw [List.append_assoc, List.cons_append], hfounded⟩

-- Counting an open or revoking leaves what the record was founded on.
theorem Founded.rewrite (h : Founded d txs id r) (opens : UInt16) (revoked : Bool) :
    Founded d txs id { r with opens := opens, revoked := revoked } := by
  obtain ⟨before, tx, rest, g, htxs, hid, hlanded, h⟩ := h
  refine ⟨before, tx, rest, g, htxs, hid, hlanded, ?_, h.registered, h.notRetired, h.owner, h.current,
    h.window, h.unexpired, h.permission, h.authorised⟩
  have hrecord := h.record
  generalize (Chain.run d before).registry.files r.fileId = f at hrecord
  rw [hrecord]

theorem founded_run (d : Deployment) (txs : List Tx) (id : FixedBytes 32)
    (hstored : ((Chain.run d txs).policy.grants id).owner ≠ .zero) :
    Founded d txs id ((Chain.run d txs).policy.grants id) := by
  induction txs using List.reverseRecOn with
  | nil => exact absurd rfl hstored
  | append_singleton before tx ih =>
      rw [run_concat] at hstored ⊢
      have hwrote := transact_wrote d (Chain.run d before) tx
      generalize hlanded : landed (taken (Chain.transact d) (Chain.run d before) tx) = out at hwrote
      generalize ((Chain.run d before).transact d tx).2.policy = policy at hwrote hstored ⊢
      cases hwrote with
      | kept => exact (ih hstored).concat tx
      | @revoked grantId howner =>
          by_cases hid : id = grantId
          · subst hid
            rw [AccessPolicy.write_self]
            exact ((ih howner).rewrite _ true).concat tx
          · rw [AccessPolicy.write_of_ne hid] at hstored ⊢
            exact (ih hstored).concat tx
      | @opened grantId hvalid hbound =>
          by_cases hid : id = grantId
          · subst hid
            have howner := (AccessPolicy.isValid_eq_true hvalid).1
            rw [AccessPolicy.write_self]
            exact ((ih howner).rewrite _ _).concat tx
          · rw [AccessPolicy.write_of_ne hid] at hstored ⊢
            exact (ih hstored).concat tx
      | @granted g ownerSig p' hcall hgrants =>
          rw [hgrants.result] at hstored ⊢
          dsimp only at hstored ⊢
          by_cases hid : id = g.hashStruct d
          · subst hid
            rw [Function.update_self]
            exact ⟨before, tx, [], g, rfl, rfl, hlanded, rfl, hgrants.registered, hgrants.notRetired,
              rfl, hgrants.current, hgrants.window, hgrants.unexpired, hgrants.permission,
              hgrants.authorised.imp id fun hsig => ⟨ownerSig, hcall, hsig⟩⟩
          · rw [Function.update_of_ne hid] at hstored ⊢
            exact (ih hstored).concat tx

end Records

section Files

variable {d : Deployment} {c : Chain} {tx : Tx} {fileId header : FixedBytes 32}

-- What a transaction makes of a file's record.
theorem transact_file (d : Deployment) (c : Chain) (tx : Tx) (fileId : FixedBytes 32) :
    (c.transact d tx).2.registry.files fileId = c.registry.files fileId ∨
    (∃ hash, tx.call = .register fileId hash ∧ (c.registry.files fileId).owner = .zero) ∨
    (∃ hash, tx.call = .bumpVersion fileId hash ∧ (c.transact d tx).2.registry.files fileId =
      { c.registry.files fileId with
        version := (c.registry.files fileId).version + 1, headerHash := hash }) ∨
    (tx.call = .retire fileId ∧ (c.transact d tx).2.registry.files fileId =
      { c.registry.files fileId with retired := true }) := by
  have hdid := transact_did d c tx
  generalize c.transact d tx = out at hdid ⊢
  cases hdid with
  | registryReverted | policyReverted | granted | revoked | opened => exact .inl rfl
  | @registered fileId' hash hcall hfree =>
      by_cases hid : fileId = fileId'
      · subst hid
        exact .inr (.inl ⟨hash, hcall, hfree⟩)
      · exact .inl (FileRegistry.write_of_ne hid)
  | @bumped fileId' hash hcall howner hnew =>
      by_cases hid : fileId = fileId'
      · subst hid
        exact .inr (.inr (.inl ⟨hash, hcall, FileRegistry.write_self⟩))
      · exact .inl (FileRegistry.write_of_ne hid)
  | @retired fileId' hcall howner =>
      by_cases hid : fileId = fileId'
      · subst hid
        exact .inr (.inr (.inr ⟨hcall, FileRegistry.write_self⟩))
      · exact .inl (FileRegistry.write_of_ne hid)

-- A registered file of which this is not the current header.
def Superseded (fileId header : FixedBytes 32) (c : Chain) : Prop :=
  (c.registry.files fileId).owner ≠ .zero ∧ (c.registry.files fileId).headerHash ≠ header

theorem Superseded.transact (h : Superseded fileId header c)
    (hback : tx.call ≠ .bumpVersion fileId header) :
    Superseded fileId header (c.transact d tx).2 := by
  rcases transact_file d c tx fileId with hsame | ⟨hash, -, hfree⟩ | ⟨hash, hcall, hbump⟩ |
    ⟨-, hretire⟩
  · rwa [Superseded, hsame]
  · exact absurd hfree h.1
  · rw [Superseded, hbump]
    refine ⟨h.1, fun hheader : hash = header => hback ?_⟩
    rw [hcall, hheader]
  · rwa [Superseded, hretire]

def RetiredFile (fileId : FixedBytes 32) (c : Chain) : Prop :=
  (c.registry.files fileId).owner ≠ .zero ∧ (c.registry.files fileId).retired = true

theorem RetiredFile.transact (h : RetiredFile fileId c) : RetiredFile fileId (c.transact d tx).2 := by
  rcases transact_file d c tx fileId with hsame | ⟨hash, -, hfree⟩ | ⟨hash, -, hbump⟩ | ⟨-, hretire⟩
  · rwa [RetiredFile, hsame]
  · exact absurd hfree h.1
  · rwa [RetiredFile, hbump]
  · rw [RetiredFile, hretire]
    exact ⟨h.1, rfl⟩

-- What a run that starts here keeps, no grant it records can go against.
theorem recorded_from {inv : Chain → Prop} {ok : Tx → Prop} {l : Landed} {rest : List Tx}
    (hok : ∀ tx ∈ rest, ok tx)
    (hstep : ∀ c tx, inv c → ok tx → inv (c.transact d tx).2)
    (hl : l ∈ recorded (trace (Chain.transact d) rest c)) (h : inv c) :
    ∃ (c' : Chain) (tx : Tx) (ownerSig : Bytes) (p' : AccessPolicy), inv c' ∧
      AccessPolicy.Grants d tx.msg c'.registry l.terms ownerSig c'.policy p' := by
  induction rest generalizing c with
  | nil => exact absurd hl List.not_mem_nil
  | cons tx rest ih =>
      obtain ⟨hnow, hlater⟩ := List.forall_mem_cons.mp hok
      rw [trace, recorded, List.filterMap_cons] at hl
      have hwrote := transact_wrote d c tx
      generalize hpolicy : (c.transact d tx).2.policy = policy at hwrote
      cases hlanded : landed (taken (Chain.transact d) c tx) with
      | none =>
          rw [hlanded] at hl
          exact ih hlater hl (hstep c tx h hnow)
      | some l' =>
          rw [hlanded] at hl hwrote
          rcases List.mem_cons.mp hl with rfl | hl
          · cases hwrote with
            | granted hcall hgrants => exact ⟨c, tx, _, _, h, hgrants⟩
          · exact ih hlater hl (hstep c tx h hnow)

end Files

-- Every record was made in a block in which the file was registered, not retired and at the
-- record's header, within its window, and by the owner or with the owner's signature over the
-- very terms. So once a new version or the retirement of a file is in, a header that is not
-- current is granted no more, unless the owner goes back to it, and a retired file not at all.
theorem grants_name_current_header (d : Deployment) (txs : List Tx) :
    (∀ id, ((Chain.run d txs).policy.grants id).owner ≠ .zero →
      Founded d txs id ((Chain.run d txs).policy.grants id)) ∧
    (∀ before tx rest fileId newHash version, txs = before ++ tx :: rest →
      ((Chain.run d before).transact d tx).1 = .registry (.versionBumped fileId version newHash) →
      ((Chain.run d before).registry.files fileId).headerHash ≠ newHash ∧
      ∀ header ≠ newHash, (∀ later ∈ rest, later.call ≠ .bumpVersion fileId header) →
        ∀ l ∈ recorded (trace (Chain.transact d) rest (Chain.run d (before ++ [tx]))),
          ¬(l.terms.fileId = fileId ∧ l.terms.headerHash = header)) ∧
    ∀ before tx rest fileId, txs = before ++ tx :: rest →
      ((Chain.run d before).transact d tx).1 = .registry (.retired fileId) →
      ∀ l ∈ recorded (trace (Chain.transact d) rest (Chain.run d (before ++ [tx]))),
        l.terms.fileId ≠ fileId := by
  refine ⟨founded_run d txs, ?_, ?_⟩
  · rintro before tx rest fileId newHash version rfl hreceipt
    have hdid := transact_did d (Chain.run d before) tx
    rw [run_concat]
    generalize (Chain.run d before).transact d tx = out at hdid hreceipt ⊢
    cases hdid with
    | bumped hcall howner hnew =>
        cases hreceipt
        refine ⟨Ne.symm hnew, fun header hheader hback l hl => ?_⟩
        rintro ⟨rfl, rfl⟩
        obtain ⟨c, tx', ownerSig, p', hsuperseded, hgrants⟩ :=
          @recorded_from d _ (Superseded l.terms.fileId l.terms.headerHash) _ l rest hback
            (fun c tx => Superseded.transact) hl
            ⟨by simpa using howner, by simpa using Ne.symm hheader⟩
        exact hsuperseded.2 hgrants.current.symm
    | registryReverted | policyReverted | registered | retired | granted | revoked | opened =>
        cases hreceipt
  · rintro before tx rest fileId rfl hreceipt l hl rfl
    have hdid := transact_did d (Chain.run d before) tx
    rw [run_concat] at hl
    generalize (Chain.run d before).transact d tx = out at hdid hreceipt hl
    cases hdid with
    | retired hcall howner =>
        cases hreceipt
        obtain ⟨c, tx', ownerSig, p', hretired, hgrants⟩ :=
          @recorded_from d _ (RetiredFile l.terms.fileId) (fun _ => True) l rest (fun _ _ => trivial)
            (fun c tx h _ => RetiredFile.transact h) hl ⟨by simpa using howner, by simp⟩
        exact Bool.false_ne_true (hgrants.notRetired.symm.trans hretired.2)
    | registryReverted | policyReverted | registered | bumped | granted | revoked | opened =>
        cases hreceipt

end Zbacs.Contracts
