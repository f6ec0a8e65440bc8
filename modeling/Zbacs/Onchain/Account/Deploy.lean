import Zbacs.Contracts.P256Validator.Keys
import Zbacs.Core.Reference
import Zbacs.Lib.Ecdsa
import Zbacs.Onchain.Account.Execution
import Zbacs.Onchain.Account

namespace Zbacs.Onchain

open Zbacs.Lib Zbacs.Lib.Abi Zbacs.Contracts

-- What the factories and the account make of the bytes of an `initCode`.

-- The account that comes to be, its root validator, and what that is installed with.
structure Deployed where
  account : Address
  validator : Address
  installData : Bytes
deriving DecidableEq

-- The known factory calls the account's factory, which makes a proxy at an address that is derived
-- from the call, and the proxy is initialised.
def readInitCode (keccak256 : Bytes → FixedBytes 32) (initCode : Bytes) : Option Deployed :=
  if initCode.take 20 ≠ metaFactory.bytes then none
  else if (initCode.drop 20).take 4 ≠ deployWithFactorySelector then none
  else do
    let (factory, data, salt) ← deployArgs.decode (initCode.drop 24)
    if data.take 4 ≠ initializeSelector then none
    else
      let (rootId, _, validatorData, _, _) ← initializeArgs.decode (data.drop 4)
      if rootId.bytes.take 1 ≠ [0x01] then none
      else
        let validator ← FixedBytes.ofBytes? 20 (rootId.bytes.drop 1)
        some ⟨create2 keccak256 factory (keccak256 (data ++ salt.bytes))
          (erc1967CloneInitCodeHash keccak256 accountLogic), validator, validatorData⟩

section Bytes

variable {keccak256 : Bytes → FixedBytes 32}

theorem length_installData (root : RootValidator) : (root.installData keccak256).length =
    match root with
    | .webAuthn .. => 96
    | .deviceKey .. => 65 := by
  cases root with
  | webAuthn x y credentialId =>
      dsimp only [RootValidator.installData]
      rw [Args.length_encode]
      rfl
  | deviceKey validator x y requireOsConfirm => simp [RootValidator.installData]

theorem length_installData_le (root : RootValidator) : (root.installData keccak256).length ≤ 96 := by
  have hlen := @length_installData keccak256 root
  cases root <;> dsimp only at hlen <;> omega

theorem length_initializeArgs (rootId : FixedBytes 21) (installData : Bytes) :
    (initializeArgs.encode (rootId, .zero, installData, [], [])).length ≤
      320 + installData.length := by
  rw [Args.length_encode]
  simp only [initializeArgs, Args.pair, Args.bytes, Args.address, Args.fixed, Args.array, Args.padding,
    Args.heads, List.nil_append, List.length_append, length_beBytes, List.length_replicate,
    List.flatMap_nil, List.length_nil]
  omega

theorem length_deployArgs (factory : Address) (data : Bytes) (salt : FixedBytes 32) :
    (deployArgs.encode (factory, data, salt)).length ≤ 192 + data.length := by
  rw [Args.length_encode]
  simp only [deployArgs, Args.pair, Args.bytes, Args.address, bytes32, Args.fixed, Args.padding,
    List.nil_append, List.append_nil, List.length_append, length_beBytes, List.length_replicate]
  omega

theorem readInitCode_initCode (a : Aa.KernelAccount) : readInitCode keccak256 (a.initCode keccak256) =
    some ⟨a.address keccak256, a.root.address, a.root.installData keccak256⟩ := by
  have hfactory : metaFactory.bytes.length = 20 := rfl
  have hdeploy : deployWithFactorySelector.length = 4 := rfl
  have hinitialize : initializeSelector.length = 4 := rfl
  have hbehind : (metaFactory.bytes ++ deployWithFactorySelector).length = 24 := rfl
  have hinstall := @length_installData_le keccak256 a.root
  have hargs := length_initializeArgs a.rootId (a.root.installData keccak256)
  have hcalldata : (a.initializeCalldata keccak256).length ≤ 420 := by
    rw [Aa.KernelAccount.initializeCalldata, List.length_append, hinitialize]
    omega
  have hwhole := length_deployArgs kernelFactory (a.initializeCalldata keccak256) a.salt
  have hread : deployArgs.decode (deployArgs.encode (kernelFactory, a.initializeCalldata keccak256,
      a.salt)) = some (kernelFactory, a.initializeCalldata keccak256, a.salt) := by
    apply Args.decode_encode
    omega
  have hreadInner : initializeArgs.decode ((a.initializeCalldata keccak256).drop 4) =
      some (a.rootId, .zero, a.root.installData keccak256, [], []) := by
    rw [Aa.KernelAccount.initializeCalldata, List.drop_left' hinitialize]
    apply Args.decode_encode
    omega
  have htake : (a.initializeCalldata keccak256).take 4 = initializeSelector := by
    rw [Aa.KernelAccount.initializeCalldata, List.take_left' hinitialize]
  have hmeta : (a.initCode keccak256).take 20 = metaFactory.bytes := by
    rw [Aa.KernelAccount.initCode, List.append_assoc, List.take_left' hfactory]
  have hselector : ((a.initCode keccak256).drop 20).take 4 = deployWithFactorySelector := by
    rw [Aa.KernelAccount.initCode, List.append_assoc, List.drop_left' hfactory, List.take_left' hdeploy]
  have hrest : (a.initCode keccak256).drop 24 = deployArgs.encode (kernelFactory,
      a.initializeCalldata keccak256, a.salt) := by
    rw [Aa.KernelAccount.initCode, List.drop_left' hbehind]
  rw [readInitCode, if_neg (not_not_intro hmeta), if_neg (not_not_intro hselector), hrest, hread]
  dsimp only [Option.bind_eq_bind, Option.bind_some]
  rw [if_neg (not_not_intro htake), hreadInner]
  dsimp only [Option.bind_some]
  have htype : a.rootId.bytes.take 1 = [0x01] := rfl
  have hvalidator : FixedBytes.ofBytes? 20 (a.rootId.bytes.drop 1) = some a.root.address :=
    FixedBytes.ofBytes?_bytes _
  rw [if_neg (not_not_intro htype), hvalidator]
  rfl

-- The operation of an account that is not there yet carries the account's own code.
theorem operation_initCode (a : Aa.KernelAccount) (nonce : U256) (data : Bytes) :
    (SmartAccountWriter.operation (a.sending keccak256) false nonce data).initCode =
      a.initCode keccak256 := by
  have hcode : (a.sending keccak256).initCode = a.initCode keccak256 := by
    have hfactory : (a.initCode keccak256).take 20 = metaFactory.bytes := by
      rw [Aa.KernelAccount.initCode, List.append_assoc, List.take_left' (show _ = 20 from rfl)]
    rw [KernelAccount.initCode, ← hfactory]
    exact List.take_append_drop 20 _
  have hsplit : (SmartAccountWriter.operation (a.sending keccak256) false nonce data).initCode =
      metaFactory.bytes ++ (a.sending keccak256).initCode.drop 20 := rfl
  rw [hsplit, KernelAccount.initCode, List.drop_left' (show _ = 20 from rfl), ← hcode]
  rfl

end Bytes

section Install

open P256Validator (keyId run transact)

variable {L : Curve} {v : P256Validator} {account validator : Address} {x y : FixedBytes 32}
  {requireOsConfirm : Bool}

theorem takes_installData (x y : FixedBytes 32) (flag : UInt8) :
    (x.bytes ++ y.bytes ++ [flag]).take 32 = x.bytes ∧
    ((x.bytes ++ y.bytes ++ [flag]).drop 32).take 32 = y.bytes ∧
    (x.bytes ++ y.bytes ++ [flag]).getD 64 0 = flag := by
  have hx := x.length_bytes
  have hy := y.length_bytes
  have hxy : (x.bytes ++ y.bytes).length = 64 := by rw [List.length_append, hx, hy]
  refine ⟨?_, ?_, ?_⟩
  · rw [List.append_assoc, List.take_left' hx]
  · rw [List.append_assoc, List.drop_left' hx, List.take_left' hy]
  · rw [List.getD_eq_getElem?_getD, List.getElem?_append_right hxy.le, hxy]
    rfl

-- A validator without a key for the account takes the root's key.
theorem onInstall_installData {keccak256 : Bytes → FixedBytes 32} (hids : v.keyIds account = [])
    (hfree : (v.keys account (keyId L x y)).enrolled = false) (hvalid : L.isValidPublicKey x y = true) :
    v.onInstall L account ((RootValidator.deviceKey validator x y requireOsConfirm).installData keccak256) =
      .ok ([.deviceEnrolled account (keyId L x y) requireOsConfirm, .moduleInstalled account],
        v.set account (Function.update (v.keys account) (keyId L x y) ⟨x, y, requireOsConfirm, true⟩)
          [keyId L x y]) := by
  obtain ⟨hx, hy, hflag⟩ := takes_installData x y (if requireOsConfirm then 1 else 0)
  have hinitialized : v.isInitialized account = false := by
    rw [P256Validator.isInitialized, hids]
    rfl
  have hlen : (x.bytes ++ y.bytes ++ [if requireOsConfirm then (1 : UInt8) else 0]).length = 65 := by simp
  rw [P256Validator.onInstall, hinitialized, RootValidator.installData, if_neg (by decide),
    if_neg (by omega), hx, hy, hflag, P256Validator.toBytes32_eq, P256Validator.toBytes32_eq]
  have hconfirm : decide (64 < (x.bytes ++ y.bytes ++ [if requireOsConfirm then (1 : UInt8) else 0]).length ∧
      (if requireOsConfirm then (1 : UInt8) else 0) ≠ 0) = requireOsConfirm := by
    rw [hlen]
    cases requireOsConfirm <;> decide
  simp only [hconfirm]
  rw [P256Validator.enroll, hvalid, hfree, hids]
  rfl

-- What other accounts do at the validator does not matter to this one.
theorem run_frame {before rest : List P256Validator.Tx} (h : ∀ tx ∈ rest, tx.sender ≠ account) :
    (run L (before ++ rest)).keys account = (run L before).keys account ∧
      (run L (before ++ rest)).keyIds account = (run L before).keyIds account := by
  induction rest using List.reverseRecOn with
  | nil => rw [List.append_nil]; exact ⟨rfl, rfl⟩
  | append_singleton rest tx ih =>
      obtain ⟨hkeys, hids⟩ := ih fun tx' htx => h tx' (List.mem_append_left _ htx)
      have hsender := h tx List.mem_concat_self
      obtain ⟨hkeys', hids'⟩ := (P256Validator.transact_did L (run L (before ++ rest)) tx).frame hsender
      rw [← List.append_assoc, P256Validator.run_concat]
      exact ⟨hkeys'.trans hkeys, hids'.trans hids⟩

theorem install_run {keccak256 : Bytes → FixedBytes 32} {txs : List P256Validator.Tx}
    (hvalid : L.isValidPublicKey x y = true) (hids : (run L txs).keyIds account = []) :
    let v := run L (txs ++ [⟨account, .onInstall
      ((RootValidator.deviceKey validator x y requireOsConfirm).installData keccak256)⟩])
    v.keyIds account = [keyId L x y] ∧ v.keys account (keyId L x y) = ⟨x, y, requireOsConfirm, true⟩ := by
  have hfree : ((run L txs).keys account (keyId L x y)).enrolled = false := by
    have hlisted := (P256Validator.keySet_run L txs account).listed (keyId L x y)
    rw [hids] at hlisted
    exact Bool.not_eq_true _ ▸ fun h => List.not_mem_nil (hlisted.mpr h)
  have hinstall := @onInstall_installData L (run L txs) account validator x y requireOsConfirm keccak256
    hids hfree hvalid
  dsimp only
  rw [P256Validator.run_concat, transact, P256Validator.outcome]
  dsimp only
  rw [hinstall]
  dsimp only
  rw [P256Validator.set_keys, P256Validator.set_keyIds, Function.update_self]
  exact ⟨rfl, rfl⟩

-- The one key of an account is the only one that signs for it.
theorem verify_of_single {txs : List P256Validator.Tx} (hids : (run L txs).keyIds account = [keyId L x y])
    (hkey : (run L txs).keys account (keyId L x y) = ⟨x, y, requireOsConfirm, true⟩)
    (hash : FixedBytes 32) (signature : Bytes) : (run L txs).verify L account hash signature = true ↔
      ∃ r s, signature = p256RawSignature (keyId L x y) r s ∧ L.verify hash r s x y = true := by
  have hset := P256Validator.keySet_run L txs account
  rw [P256Validator.verify_eq_true]
  constructor
  · rintro ⟨id, r, s, rfl, henrolled, hverify⟩
    have hmem := (hset.listed id).mpr henrolled
    rw [hids, List.mem_singleton] at hmem
    subst hmem
    rw [hkey] at hverify
    exact ⟨r, s, rfl, hverify⟩
  · rintro ⟨r, s, rfl, hverify⟩
    refine ⟨keyId L x y, r, s, rfl, ?_, ?_⟩
    · rw [hkey]
    · rw [hkey]
      exact hverify

-- Whatever others do after an installation, the account has this one key.
theorem installed_run {keccak256 : Bytes → FixedBytes 32} {txs rest : List P256Validator.Tx}
    (hvalid : L.isValidPublicKey x y = true) (hids : (run L txs).keyIds account = [])
    (hrest : ∀ tx ∈ rest, tx.sender ≠ account) :
    let v := run L (txs ++ [⟨account, .onInstall
      ((RootValidator.deviceKey validator x y requireOsConfirm).installData keccak256)⟩] ++ rest)
    v.keyIds account = [keyId L x y] ∧ v.keys account (keyId L x y) = ⟨x, y, requireOsConfirm, true⟩ ∧
      ∀ hash signature, v.verify L account hash signature = true ↔
        ∃ r s, signature = p256RawSignature (keyId L x y) r s ∧ L.verify hash r s x y = true := by
  obtain ⟨hlisted, hkey⟩ := @install_run L account validator x y requireOsConfirm keccak256 txs hvalid hids
  obtain ⟨hkeys', hids'⟩ := @run_frame L account (txs ++ [⟨account, .onInstall
    ((RootValidator.deviceKey validator x y requireOsConfirm).installData keccak256)⟩]) rest hrest
  rw [← hids'] at hlisted
  rw [← hkeys'] at hkey
  exact ⟨hlisted, hkey, verify_of_single hlisted hkey⟩

end Install

-- The first operation of an account whose root is a device key deploys the account that sends it, and
-- installs it with this key: whatever others do afterwards, it is the account's one key, recorded with
-- the owner's choice, and the account takes the signatures of this key and no others.
theorem deploys_with_key (keccak256 : Bytes → FixedBytes 32) (L : Curve) (a : Aa.KernelAccount)
    {validator : Address} {x y : FixedBytes 32} {requireOsConfirm : Bool}
    (hroot : a.root = .deviceKey validator x y requireOsConfirm)
    (hvalid : L.isValidPublicKey x y = true) (txs : List P256Validator.Tx)
    (hnone : (P256Validator.run L txs).keyIds (a.address keccak256) = []) (nonce : U256) (data : Bytes) :
    ∃ d, readInitCode keccak256
        (SmartAccountWriter.operation (a.sending keccak256) false nonce data).initCode = some d ∧
      d.account = (SmartAccountWriter.operation (a.sending keccak256) false nonce data).sender ∧
      d.validator = validator ∧
      ∀ rest : List P256Validator.Tx, (∀ tx ∈ rest, tx.sender ≠ d.account) →
        let v := P256Validator.run L (txs ++ [⟨d.account, .onInstall d.installData⟩] ++ rest)
        v.keyIds d.account = [P256Validator.keyId L x y] ∧
        v.keys d.account (P256Validator.keyId L x y) = ⟨x, y, requireOsConfirm, true⟩ ∧
        ∀ hash signature, v.verify L d.account hash signature = true ↔
          ∃ r s, signature = p256RawSignature (P256Validator.keyId L x y) r s ∧
            L.verify hash r s x y = true := by
  refine ⟨⟨a.address keccak256, a.root.address, a.root.installData keccak256⟩, ?_, rfl, ?_, ?_⟩
  · rw [operation_initCode, readInitCode_initCode]
  · rw [hroot]
    rfl
  · intro rest hrest
    dsimp only at hrest ⊢
    rw [hroot]
    exact installed_run hvalid hnone hrest

namespace Reference

def curve : Curve where
  keccak256 := keccak256
  isValidPublicKey := P256.onCurve
  verify := Ecdsa.atOne.verifyLowS

def account : Aa.KernelAccount :=
  .new (.deviceKey (.replicate 20 4) Ecdsa.baseX Ecdsa.baseY true)

theorem account_deploys : curve.isValidPublicKey Ecdsa.baseX Ecdsa.baseY = true ∧
    ∃ d, readInitCode keccak256
        (SmartAccountWriter.operation (account.sending keccak256) false 0 []).initCode = some d ∧
      d.account = account.address keccak256 ∧ d.validator = .replicate 20 4 ∧
      (P256Validator.run curve [⟨d.account, .onInstall d.installData⟩]).keyIds d.account =
        [P256Validator.keyId curve Ecdsa.baseX Ecdsa.baseY] := by
  have hvalid : curve.isValidPublicKey Ecdsa.baseX Ecdsa.baseY = true := by decide +kernel
  obtain ⟨d, hread, haccount, hvalidator, hrun⟩ :=
    deploys_with_key keccak256 curve account rfl hvalid [] rfl 0 []
  have hnone : ∀ tx ∈ ([] : List P256Validator.Tx), tx.sender ≠ d.account :=
    fun tx h => absurd h List.not_mem_nil
  exact ⟨hvalid, d, hread, haccount, hvalidator, (hrun [] hnone).1⟩

end Reference

-- Which accounts share an address.

-- What is hashed on the way to the address of an account.
def Aa.KernelAccount.preimages (keccak256 : Bytes → FixedBytes 32) (a : Aa.KernelAccount) : List Bytes :=
  let salted := a.initializeCalldata keccak256 ++ a.salt.bytes
  (match a.root with
    | .webAuthn _ _ credentialId => [credentialId]
    | .deviceKey .. => []) ++
    [salted, [0xff] ++ kernelFactory.bytes ++ (keccak256 salted).bytes ++
      (erc1967CloneInitCodeHash keccak256 accountLogic).bytes]

-- No two of these have hashes that end in the same 20 bytes, as those of different addresses do.
def Apart (keccak256 : Bytes → FixedBytes 32) (a b : Aa.KernelAccount) : Prop :=
  ∀ m ∈ a.preimages keccak256, ∀ m' ∈ b.preimages keccak256,
    (keccak256 m).bytes.drop 12 = (keccak256 m').bytes.drop 12 → m = m'

instance (keccak256 : Bytes → FixedBytes 32) (a b : Aa.KernelAccount) :
    Decidable (Apart keccak256 a b) := by
  unfold Apart
  infer_instance

section Address

variable {keccak256 : Bytes → FixedBytes 32} {a b : Aa.KernelAccount}

theorem initializeCalldata_inj (h : a.initializeCalldata keccak256 = b.initializeCalldata keccak256) :
    a.rootId = b.rootId ∧ a.root.installData keccak256 = b.root.installData keccak256 := by
  have hargs := List.append_cancel_left h
  have hinstall := @length_installData_le keccak256 a.root
  have hlen := length_initializeArgs a.rootId (a.root.installData keccak256)
  have hfields := initializeArgs.encode_inj (by omega) hargs
  simp only [Prod.mk.injEq] at hfields
  exact ⟨hfields.1, hfields.2.2.1⟩

theorem rootId_inj (h : a.rootId = b.rootId) : a.root.address = b.root.address := by
  have hbytes := congrArg FixedBytes.bytes h
  exact FixedBytes.ext (List.cons.inj hbytes).2

-- What a validator is installed with says which one it is, but for the credential behind its hash.
theorem installData_inj {r r' : RootValidator} (haddress : r.address = r'.address)
    (h : r.installData keccak256 = r'.installData keccak256)
    (hcredential : ∀ x y c x' y' c', r = .webAuthn x y c → r' = .webAuthn x' y' c' →
      keccak256 c = keccak256 c' → c = c') : r = r' := by
  have hlen := congrArg List.length h
  rw [length_installData, length_installData] at hlen
  cases r with
  | webAuthn x y c =>
      cases r' with
      | deviceKey validator x' y' flag => cases hlen
      | webAuthn x' y' c' =>
          have hargs := Args.encode_inj _ (by
            have hle := @length_installData_le keccak256 (.webAuthn x y c)
            exact lt_of_le_of_lt hle (by decide)) h
          simp only [Prod.mk.injEq] at hargs
          obtain ⟨⟨hx, hy⟩, hc⟩ := hargs
          rw [ofNat_bytes_inj hx, ofNat_bytes_inj hy, hcredential x y c x' y' c' rfl rfl hc]
  | deviceKey validator x y flag =>
      cases r' with
      | webAuthn x' y' c' => cases hlen
      | deviceKey validator' x' y' flag' =>
          obtain rfl : validator = validator' := haddress
          obtain ⟨hxy, hflag⟩ := List.append_inj' h rfl
          obtain ⟨hx, hy⟩ := List.append_inj' hxy (by simp)
          obtain rfl := FixedBytes.ext hx
          obtain rfl := FixedBytes.ext hy
          cases flag <;> cases flag' <;> first | rfl | cases hflag

theorem salt_inj (h : a.salt = b.salt) : a.index = b.index := by
  have hbytes : beBytes 32 a.index.toNat = beBytes 32 b.index.toNat := congrArg FixedBytes.bytes h
  have hword : ∀ i : UInt64, i.toNat < 256 ^ 32 := fun i => lt_of_lt_of_le i.toNat_lt (by decide)
  have hnat := congrArg beNat hbytes
  rw [beNat_beBytes (hword _), beNat_beBytes (hword _)] at hnat
  exact UInt64.toNat_inj.mp hnat

end Address

-- One account, one address: of two accounts between which the hash does not collide, different keys, validators,
-- credentials, choices to be asked, or indices have different addresses. The hashes of what is named
-- in `preimages` are all that this rests on.
theorem address_eq_iff {keccak256 : Bytes → FixedBytes 32} {a b : Aa.KernelAccount}
    (h : Apart keccak256 a b) : a.address keccak256 = b.address keccak256 ↔ a = b := by
  refine ⟨fun haddress => ?_, fun hsame => hsame ▸ rfl⟩
  have htail := congrArg FixedBytes.bytes haddress
  have hcreate := h _ (List.mem_append_right _ (List.mem_cons_of_mem _ List.mem_cons_self)) _
    (List.mem_append_right _ (List.mem_cons_of_mem _ List.mem_cons_self)) htail
  rw [List.append_left_inj] at hcreate
  have hsalted := List.append_cancel_left hcreate
  have hinit := h _ (List.mem_append_right _ List.mem_cons_self) _
    (List.mem_append_right _ List.mem_cons_self) (congrArg (List.drop 12) hsalted)
  obtain ⟨hdata, hsalt⟩ := List.append_inj' hinit (by simp)
  obtain ⟨hroot, hinstall⟩ := initializeCalldata_inj hdata
  have hindex := salt_inj (FixedBytes.ext hsalt)
  have hvalidator := installData_inj (rootId_inj hroot) hinstall (by
    intro x y c x' y' c' hr hr' hc
    have hm : c ∈ a.preimages keccak256 := by simp [Aa.KernelAccount.preimages, hr]
    have hm' : c' ∈ b.preimages keccak256 := by simp [Aa.KernelAccount.preimages, hr']
    exact h c hm c' hm' (congrArg (fun d => d.bytes.drop 12) hc))
  cases a
  cases b
  congr

namespace Reference

-- Two keys that differ in whether their owner is asked.
theorem account_address : Apart Core.Reference.digest account
      (.new (.deviceKey (.replicate 20 4) Ecdsa.baseX Ecdsa.baseY false)) ∧
    account.address Core.Reference.digest ≠
      (Aa.KernelAccount.new (.deviceKey (.replicate 20 4) Ecdsa.baseX Ecdsa.baseY false)).address
        Core.Reference.digest := by
  have hapart : Apart Core.Reference.digest account
      (.new (.deviceKey (.replicate 20 4) Ecdsa.baseX Ecdsa.baseY false)) := by decide +kernel
  exact ⟨hapart, fun hsame => absurd ((address_eq_iff hapart).mp hsame) (by decide)⟩

end Reference

end Zbacs.Onchain
