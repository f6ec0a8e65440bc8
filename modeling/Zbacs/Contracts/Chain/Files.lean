import Zbacs.Contracts.Chain.Grants

namespace Zbacs.Contracts

open Zbacs.Lib

-- The file a call of the registry names.
def Call.file : Call → Option (FixedBytes 32)
  | .register fileId _ | .bumpVersion fileId _ | .retire fileId => some fileId
  | .grant .. | .revoke _ | .consumeOpen .. => none

def Receipt.reverted : Receipt → Bool
  | .registryReverted _ | .policyReverted _ => true
  | .registry _ | .policy _ => false

-- The header hash that a registration or a bump of this file put in.
def registeredAs (fileId : FixedBytes 32) (x : Mined) : Option (FixedBytes 32) :=
  match x.input.call with
  | .register id hash => if id = fileId ∧ ¬x.output.reverted then some hash else none
  | _ => none

def bumpedTo (fileId : FixedBytes 32) (x : Mined) : Option (FixedBytes 32) :=
  match x.input.call with
  | .bumpVersion id hash => if id = fileId ∧ ¬x.output.reverted then some hash else none
  | _ => none

-- The registrations and the bumps of a file, and every header hash it was given, in their order.
def registrations (fileId : FixedBytes 32) (log : List Mined) : List (FixedBytes 32) :=
  log.filterMap (registeredAs fileId)

def bumps (fileId : FixedBytes 32) (log : List Mined) : List (FixedBytes 32) :=
  log.filterMap (bumpedTo fileId)

def headers (fileId : FixedBytes 32) (log : List Mined) : List (FixedBytes 32) :=
  log.filterMap fun x => registeredAs fileId x <|> bumpedTo fileId x

-- What a transaction can do to the registry.
inductive Filed (r : FileRegistry) (tx : Tx) : Receipt → FileRegistry → Prop where
  | reverted {receipt : Receipt} (hreverted : receipt.reverted = true) : Filed r tx receipt r
  | policy (event : PolicyEvent) (hcall : tx.call.file = none) : Filed r tx (.policy event) r
  | registered {fileId hash : FixedBytes 32} (event : RegistryEvent)
      (hcall : tx.call = .register fileId hash) (hfree : (r.files fileId).owner = .zero)
      (hhash : hash ≠ zeroHash) :
      Filed r tx (.registry event) (r.write fileId ⟨tx.msg.sender, hash, 1, false⟩)
  | bumped {fileId hash : FixedBytes 32} (event : RegistryEvent)
      (hcall : tx.call = .bumpVersion fileId hash) (hregistered : (r.files fileId).owner ≠ .zero)
      (howner : (r.files fileId).owner = tx.msg.sender) (hlive : (r.files fileId).retired = false)
      (hhash : hash ≠ zeroHash) (hnew : hash ≠ (r.files fileId).headerHash)
      (hbound : (r.files fileId).version.toNat + 1 < 2 ^ 32) :
      Filed r tx (.registry event) (r.write fileId { r.files fileId with
        version := (r.files fileId).version + 1, headerHash := hash })
  | retired {fileId : FixedBytes 32} (event : RegistryEvent) (hcall : tx.call = .retire fileId)
      (hregistered : (r.files fileId).owner ≠ .zero)
      (howner : (r.files fileId).owner = tx.msg.sender) (hlive : (r.files fileId).retired = false) :
      Filed r tx (.registry event) (r.write fileId { r.files fileId with retired := true })

theorem onPolicy_filed {c : Chain} {tx : Tx} (hcall : tx.call.file = none)
    (out : Except PolicyError (PolicyEvent × AccessPolicy)) :
    Filed c.registry tx (c.onPolicy out).1 (c.onPolicy out).2.registry := by
  cases out with
  | error why => exact .reverted rfl
  | ok out => exact .policy out.1 hcall

theorem transact_filed (d : Deployment) (c : Chain) (tx : Tx) :
    Filed c.registry tx (c.transact d tx).1 (c.transact d tx).2.registry := by
  unfold Chain.transact
  cases hcall : tx.call with
  | register fileId hash =>
      dsimp only
      rcases h : c.registry.register tx.msg.sender fileId hash with why | ⟨event, r⟩
      · exact .reverted rfl
      · obtain ⟨hhash, hfree, -, rfl⟩ := FileRegistry.register_eq_ok h
        exact .registered event hcall hfree hhash
  | bumpVersion fileId hash =>
      dsimp only
      rcases h : c.registry.bumpVersion tx.msg.sender fileId hash with why | ⟨event, r⟩
      · exact .reverted rfl
      · obtain ⟨hregistered, howner, hlive, hhash, hnew, hbound, -, rfl⟩ :=
          FileRegistry.bumpVersion_eq_ok h
        exact .bumped event hcall hregistered howner hlive hhash hnew hbound
  | retire fileId =>
      dsimp only
      rcases h : c.registry.retire tx.msg.sender fileId with why | ⟨event, r⟩
      · exact .reverted rfl
      · obtain ⟨hregistered, howner, hlive, -, rfl⟩ := FileRegistry.retire_eq_ok h
        exact .retired event hcall hregistered howner hlive
  | grant | revoke | consumeOpen => exact onPolicy_filed (by rw [hcall]; rfl) _

-- What a transaction can do to one file's record, and what it puts into its history.
inductive FileStep (f : FileRecord) (tx : Tx) :
    Option (FixedBytes 32) → Option (FixedBytes 32) → FileRecord → Prop where
  | kept : FileStep f tx none none f
  | registered {hash : FixedBytes 32} (hfree : f.owner = .zero) (hhash : hash ≠ zeroHash) :
      FileStep f tx (some hash) none ⟨tx.msg.sender, hash, 1, false⟩
  | bumped {hash : FixedBytes 32} (hregistered : f.owner ≠ .zero) (howner : f.owner = tx.msg.sender)
      (hlive : f.retired = false) (hhash : hash ≠ zeroHash) (hnew : hash ≠ f.headerHash)
      (hbound : f.version.toNat + 1 < 2 ^ 32) :
      FileStep f tx none (some hash) { f with version := f.version + 1, headerHash := hash }
  | retired (hregistered : f.owner ≠ .zero) (howner : f.owner = tx.msg.sender)
      (hlive : f.retired = false) : FileStep f tx none none { f with retired := true }

section Steps

variable {d : Deployment} {c : Chain} {tx : Tx} {fileId : FixedBytes 32} {x : Mined}

theorem Filed.step (h : Filed x.before.registry x.input x.output x.after.registry)
    (fileId : FixedBytes 32) :
    FileStep (x.before.registry.files fileId) x.input (registeredAs fileId x) (bumpedTo fileId x)
      (x.after.registry.files fileId) := by
  obtain ⟨before, tx, receipt, after⟩ := x
  dsimp only at h ⊢
  unfold registeredAs bumpedTo
  generalize after.registry = r at h ⊢
  cases h with
  | reverted hreverted =>
      cases tx.call <;> simp [hreverted] <;> exact .kept
  | policy event hcall =>
      cases hc : tx.call <;> simp [hc, Call.file] at hcall ⊢ <;> exact .kept
  | @registered id hash event hcall hfree hhash =>
      rw [hcall]
      by_cases hid : fileId = id
      · subst hid
        simpa [Receipt.reverted] using FileStep.registered hfree hhash
      · simpa [Ne.symm hid, FileRegistry.write_of_ne hid] using FileStep.kept
  | @bumped id hash event hcall hregistered howner hlive hhash hnew hbound =>
      rw [hcall]
      by_cases hid : fileId = id
      · subst hid
        simpa [Receipt.reverted] using
          FileStep.bumped hregistered howner hlive hhash hnew hbound
      · simpa [Ne.symm hid, FileRegistry.write_of_ne hid] using FileStep.kept
  | @retired id event hcall hregistered howner hlive =>
      rw [hcall]
      by_cases hid : fileId = id
      · subst hid
        simpa using FileStep.retired hregistered howner hlive
      · simpa [FileRegistry.write_of_ne hid] using FileStep.kept

theorem transact_step (d : Deployment) (c : Chain) (tx : Tx) (fileId : FixedBytes 32) :
    FileStep (c.registry.files fileId) tx (registeredAs fileId (taken (Chain.transact d) c tx))
      (bumpedTo fileId (taken (Chain.transact d) c tx))
      ((c.transact d tx).2.registry.files fileId) :=
  @Filed.step (taken (Chain.transact d) c tx) (transact_filed d c tx) fileId

theorem transact_reverted (h : (c.transact d tx).1.reverted = true) : (c.transact d tx).2 = c := by
  have hdid := transact_did d c tx
  generalize c.transact d tx = out at hdid h ⊢
  cases hdid with
  | registryReverted | policyReverted => rfl
  | registered | bumped | retired | granted | revoked | opened =>
      exact absurd h Bool.false_ne_true

-- Only the file that is named changes.
theorem Filed.frame {r r' : FileRegistry} {receipt : Receipt} (h : Filed r tx receipt r')
    (hfile : tx.call.file ≠ some fileId) : r'.files fileId = r.files fileId := by
  cases h with
  | reverted | policy => rfl
  | registered event hcall | bumped event hcall | retired event hcall =>
      rw [hcall] at hfile
      exact FileRegistry.write_of_ne fun hid => hfile (congrArg some hid.symm)

-- Only its owner changes a file that is there.
theorem Filed.owner {r r' : FileRegistry} {receipt : Receipt} (h : Filed r tx receipt r')
    (hlanded : receipt.reverted = false) (hfile : tx.call.file = some fileId) :
    (∃ hash, tx.call = .register fileId hash) ∨ (r.files fileId).owner = tx.msg.sender := by
  cases h with
  | reverted hreverted => cases hreverted.symm.trans hlanded
  | policy event hcall => cases hcall.symm.trans hfile
  | @registered id hash event hcall =>
      rw [hcall] at hfile
      obtain rfl := Option.some.inj hfile
      exact .inl ⟨hash, hcall⟩
  | bumped event hcall hregistered howner | retired event hcall hregistered howner =>
      rw [hcall] at hfile
      obtain rfl := Option.some.inj hfile
      exact .inr howner

end Steps

-- A file's record beside its history.
inductive Chronicle (fileId : FixedBytes 32) (log : List Mined) (f : FileRecord) : Prop where
  | unregistered (hrecord : f = .zero) (hregistrations : registrations fileId log = [])
      (hbumps : bumps fileId log = [])
  | registered (howner : f.owner ≠ .zero) (hregistrations : (registrations fileId log).length = 1)
      (hversion : f.version.toNat = 1 + (bumps fileId log).length) (hheader : f.headerHash ≠ zeroHash)
      (hlast : (headers fileId log).getLast? = some f.headerHash)

section Chronicle

variable {d : Deployment} {before rest txs : List Tx} {tx : Tx} {fileId : FixedBytes 32}
  {f f' : FileRecord} {log : List Mined} {x : Mined}

theorem Chronicle.step (h : Chronicle fileId log f) (hsender : tx.msg.sender ≠ .zero)
    (hstep : FileStep f tx (registeredAs fileId x) (bumpedTo fileId x) f') :
    Chronicle fileId (log ++ [x]) f' := by
  generalize hr : registeredAs fileId x = registration at hstep
  generalize hb : bumpedTo fileId x = bump at hstep
  have hregistrations : registrations fileId (log ++ [x]) =
      registrations fileId log ++ registration.toList := by
    simp only [registrations, List.filterMap_append, List.filterMap_cons, hr]
    cases registration <;> simp
  have hbumps : bumps fileId (log ++ [x]) = bumps fileId log ++ bump.toList := by
    simp only [bumps, List.filterMap_append, List.filterMap_cons, hb]
    cases bump <;> simp
  have hheaders : headers fileId (log ++ [x]) =
      headers fileId log ++ (registration <|> bump).toList := by
    simp only [headers, List.filterMap_append, List.filterMap_cons, hr, hb]
    cases registration <;> cases bump <;> simp
  cases hstep with
  | kept =>
      cases h with
      | unregistered hrecord hnone hnever =>
          exact .unregistered hrecord (by simp [hregistrations, hnone]) (by simp [hbumps, hnever])
      | registered howner honce hversion hheader hlast =>
          exact .registered howner (by simp [hregistrations, honce]) (by simp [hbumps, hversion])
            hheader (by simp [hheaders, hlast])
  | registered hfree hhash =>
      cases h with
      | unregistered hrecord hnone hnever =>
          exact .registered hsender (by simp [hregistrations, hnone]) (by simp [hbumps, hnever])
            hhash (by simp [hheaders])
      | registered howner => exact absurd hfree howner
  | bumped hregistered howner hlive hhash hnew hbound =>
      cases h with
      | unregistered hrecord => exact absurd (by rw [hrecord]; rfl) hregistered
      | registered howner honce hversion hheader hlast =>
          refine .registered howner (by simp [hregistrations, honce]) ?_ hhash (by simp [hheaders])
          have hnext : (f.version + 1).toNat = f.version.toNat + 1 := by
            rw [UInt32.toNat_add]
            exact Nat.mod_eq_of_lt hbound
          simp only [hbumps, hnext, hversion, Option.toList_some, List.length_append,
            List.length_singleton]
          omega
  | retired hregistered howner hlive =>
      cases h with
      | unregistered hrecord => exact absurd (by rw [hrecord]; rfl) hregistered
      | registered howner honce hversion hheader hlast =>
          exact .registered howner (by simp [hregistrations, honce]) (by simp [hbumps, hversion])
            hheader (by simp [hheaders, hlast])

theorem chronicle_run (hsenders : ∀ tx ∈ txs, tx.msg.sender ≠ .zero) (fileId : FixedBytes 32) :
    Chronicle fileId (Chain.log d txs) ((Chain.run d txs).registry.files fileId) := by
  induction txs using List.reverseRecOn with
  | nil => exact .unregistered rfl rfl rfl
  | append_singleton before tx ih =>
      rw [log_concat, run_concat]
      have hbefore := ih fun tx' htx => hsenders tx' (List.mem_append_left _ htx)
      exact hbefore.step (hsenders tx List.mem_concat_self) (transact_step d _ tx fileId)

-- What is registered stays with its owner, and what is retired stays as it is.
theorem FileStep.keeps {registration bump : Option (FixedBytes 32)}
    (h : FileStep f tx registration bump f') :
    (f.owner ≠ .zero → f'.owner = f.owner) ∧ (f.owner ≠ .zero → f.retired = true → f' = f) := by
  cases h with
  | kept => exact ⟨fun _ => rfl, fun _ _ => rfl⟩
  | registered hfree => exact ⟨fun h => absurd hfree h, fun h => absurd hfree h⟩
  | bumped hregistered howner hlive | retired hregistered howner hlive =>
      exact ⟨fun _ => rfl, fun _ hretired => absurd (hlive.symm.trans hretired) Bool.false_ne_true⟩

theorem owner_run (h : ((Chain.run d before).registry.files fileId).owner ≠ .zero) :
    ((Chain.run d (before ++ rest)).registry.files fileId).owner =
      ((Chain.run d before).registry.files fileId).owner := by
  induction rest using List.reverseRecOn with
  | nil => rw [List.append_nil]
  | append_singleton rest tx ih =>
      rw [← List.append_assoc, run_concat, ← ih]
      exact (transact_step d _ tx fileId).keeps.1 (ih ▸ h)

theorem retired_run (howner : ((Chain.run d before).registry.files fileId).owner ≠ .zero)
    (hretired : ((Chain.run d before).registry.files fileId).retired = true) :
    (Chain.run d (before ++ rest)).registry.files fileId =
      (Chain.run d before).registry.files fileId := by
  induction rest using List.reverseRecOn with
  | nil => rw [List.append_nil]
  | append_singleton rest tx ih =>
      rw [← List.append_assoc, run_concat, ← ih]
      exact (transact_step d _ tx fileId).keeps.2 (ih ▸ howner) (ih ▸ hretired)

end Chronicle

-- A registered file keeps its owner. Its version counts its bumps, and its header hash is the last
-- it was given, each bump giving it another. A retired file stays as it is, and what was never
-- registered has an empty record. A transaction that reverts changes nothing, and one that does not
-- changes only the file it names and succeeds only for its owner, unless it registers it. No
-- transaction is sent from the zero address.
theorem files_have_histories (d : Deployment) (txs : List Tx)
    (hsenders : ∀ tx ∈ txs, tx.msg.sender ≠ .zero) :
    (∀ before rest fileId, txs = before ++ rest →
      ((Chain.run d before).registry.files fileId).owner ≠ .zero →
      ((Chain.run d txs).registry.files fileId).owner =
        ((Chain.run d before).registry.files fileId).owner) ∧
    (∀ fileId, (registrations fileId (Chain.log d txs) = [] ∧
        (Chain.run d txs).registry.files fileId = .zero) ∨
      ((registrations fileId (Chain.log d txs)).length = 1 ∧
        ((Chain.run d txs).registry.files fileId).owner ≠ .zero ∧
        ((Chain.run d txs).registry.files fileId).version.toNat =
          1 + (bumps fileId (Chain.log d txs)).length ∧
        ((Chain.run d txs).registry.files fileId).headerHash ≠ zeroHash ∧
        (headers fileId (Chain.log d txs)).getLast? =
          some ((Chain.run d txs).registry.files fileId).headerHash)) ∧
    (∀ x ∈ Chain.log d txs, ∀ fileId hash, bumpedTo fileId x = some hash →
      (x.after.registry.files fileId).headerHash ≠ (x.before.registry.files fileId).headerHash) ∧
    (∀ before rest fileId, txs = before ++ rest →
      ((Chain.run d before).registry.files fileId).retired = true →
      (Chain.run d txs).registry.files fileId = (Chain.run d before).registry.files fileId) ∧
    ∀ x ∈ Chain.log d txs,
      (x.output.reverted = true → x.after = x.before) ∧
      (∀ fileId, x.input.call.file ≠ some fileId →
        x.after.registry.files fileId = x.before.registry.files fileId) ∧
      (x.output.reverted = false → ∀ fileId, x.input.call.file = some fileId →
        (∃ hash, x.input.call = .register fileId hash) ∨
          (x.before.registry.files fileId).owner = x.input.msg.sender) := by
  refine ⟨?_, fun fileId => ?_, ?_, ?_, ?_⟩
  · rintro before rest fileId rfl howner
    exact owner_run howner
  · cases chronicle_run hsenders fileId with
    | unregistered hrecord hnone => exact .inl ⟨hnone, hrecord⟩
    | registered howner honce hversion hheader hlast =>
        exact .inr ⟨honce, howner, hversion, hheader, hlast⟩
  · intro x hx fileId hash hbump
    obtain ⟨before, tx, rest, rfl, rfl⟩ := exists_of_mem_trace hx
    have hstep := transact_step d (final (Chain.transact d) before Chain.deployed) tx fileId
    rw [hbump] at hstep
    unfold taken
    dsimp only
    generalize (Chain.transact d _ tx).2.registry.files fileId = f at hstep ⊢
    generalize registeredAs fileId _ = registration at hstep
    cases hstep with
    | bumped hregistered howner hlive hhash hnew => exact hnew
  · rintro before rest fileId rfl hretired
    have hbefore := @chronicle_run d before
      (fun tx htx => hsenders tx (List.mem_append_left _ htx)) fileId
    refine retired_run ?_ hretired
    cases hbefore with
    | unregistered hrecord =>
        rw [hrecord] at hretired
        exact absurd hretired Bool.false_ne_true
    | registered howner => exact howner
  · intro x hx
    obtain ⟨before, tx, rest, rfl, rfl⟩ := exists_of_mem_trace hx
    have hfiled := transact_filed d (final (Chain.transact d) before Chain.deployed) tx
    exact ⟨transact_reverted, fun fileId => hfiled.frame, fun hlanded fileId => hfiled.owner hlanded⟩

namespace Reference

-- A file is registered, bumped, bumped by someone else, retired and bumped again.
def reseals : List Tx :=
  [⟨msg owner 1000, .register (.replicate 32 2) (.replicate 32 3)⟩,
    ⟨msg owner 1100, .bumpVersion (.replicate 32 2) (.replicate 32 4)⟩,
    ⟨msg (.replicate 20 8) 1200, .bumpVersion (.replicate 32 2) (.replicate 32 5)⟩,
    ⟨msg owner 1300, .retire (.replicate 32 2)⟩,
    ⟨msg owner 1400, .bumpVersion (.replicate 32 2) (.replicate 32 5)⟩]

theorem bumped_once : (∀ tx ∈ reseals, tx.msg.sender ≠ .zero) ∧
    ((Chain.run deployment reseals).registry.files (.replicate 32 2)).owner = owner ∧
    (bumps (.replicate 32 2) (Chain.log deployment reseals)).length = 1 ∧
    (Chain.run deployment reseals).registry.files (.replicate 32 6) = .zero := by
  have hsenders : ∀ tx ∈ reseals, tx.msg.sender ≠ .zero := by decide
  obtain ⟨howner, hhistory, -⟩ := files_have_histories deployment reseals hsenders
  refine ⟨hsenders, ?_, ?_, ?_⟩
  · have hkept := howner (reseals.take 1) (reseals.drop 1) (.replicate 32 2) rfl (by decide)
    exact hkept.trans (by decide)
  · rcases hhistory (.replicate 32 2) with ⟨hnone, -⟩ | ⟨-, -, hversion, -⟩
    · exact absurd hnone (by decide +kernel)
    · have hcount : ((Chain.run deployment reseals).registry.files
          (.replicate 32 2)).version.toNat = 2 := by decide +kernel
      omega
  · rcases hhistory (.replicate 32 6) with ⟨-, hzero⟩ | ⟨honce, -⟩
    · exact hzero
    · exact absurd honce (by decide +kernel)

end Reference

end Zbacs.Contracts
