import Zbacs.Onchain.UserOperation

namespace Zbacs.Onchain

open Zbacs.Lib Zbacs.Contracts

-- How EntryPoint v0.7 takes a packed operation apart.

namespace PackedUserOperation

def splitInitCode (p : PackedUserOperation) : Option Address × Option Bytes :=
  if p.initCode = [] then (none, none)
  else (FixedBytes.ofBytes? 20 (p.initCode.take 20), some (p.initCode.drop 20))

def splitPaymasterAndData (p : PackedUserOperation) :
    Option Address × Option Nat × Option Nat × Option Bytes :=
  if p.paymasterAndData = [] then (none, none, none, none)
  else
    (FixedBytes.ofBytes? 20 (p.paymasterAndData.take 20),
      some (beNat ((p.paymasterAndData.drop 20).take 16)),
      some (beNat ((p.paymasterAndData.drop 36).take 16)), some (p.paymasterAndData.drop 52))

end PackedUserOperation

def splitPair (w : FixedBytes 32) : Nat × Nat := (beNat (w.bytes.take 16), beNat (w.bytes.drop 16))

-- The packed operation comes apart into the fields it was made of.
structure Splits (p : PackedUserOperation) (op : RpcUserOperation) : Prop where
  initCode : p.splitInitCode = (op.factory, op.factoryData)
  accountGasLimits : splitPair p.accountGasLimits = (op.verificationGasLimit.toNat, op.callGasLimit.toNat)
  gasFees : splitPair p.gasFees = (op.maxPriorityFeePerGas.toNat, op.maxFeePerGas.toNat)
  paymasterAndData : p.splitPaymasterAndData = (op.paymaster,
    op.paymasterVerificationGasLimit.map BitVec.toNat, op.paymasterPostOpGasLimit.map BitVec.toNat,
    op.paymasterData)

section Packed

variable {op : RpcUserOperation} {p : PackedUserOperation}

theorem toU128_eq_some {v : U256} {w : BitVec 128} : toU128 v = some w ↔ w.toNat = v.toNat := by
  unfold toU128
  split_ifs with h
  · rw [Option.some.injEq, ← BitVec.toNat_inj, BitVec.toNat_setWidth, Nat.mod_eq_of_lt h]
    exact eq_comm
  · have := w.isLt
    constructor
    · rintro ⟨⟩
    · omega

theorem toU128_isSome {v : U256} : (∃ w, toU128 v = some w) ↔ v.toNat < 2 ^ 128 := by
  unfold toU128
  split_ifs with h
  · exact ⟨fun _ => h, fun _ => ⟨_, rfl⟩⟩
  · exact iff_of_false (by simp) h

theorem splitPair_packPair (high low : BitVec 128) :
    splitPair (packPair high low) = (high.toNat, low.toNat) := by
  have hlt : ∀ v : BitVec 128, v.toNat < 256 ^ 16 := fun v => v.isLt
  rw [splitPair, packPair, List.take_left' (length_beBytes 16 _), List.drop_left' (length_beBytes 16 _),
    beNat_beBytes (hlt high), beNat_beBytes (hlt low)]

-- An operation for an account that is deployed or not, sponsored or not.
structure Shaped (op : RpcUserOperation) : Prop where
  factory : op.factory.isSome = op.factoryData.isSome
  paymaster : (op.paymaster = none ∧ op.paymasterVerificationGasLimit = none ∧
      op.paymasterPostOpGasLimit = none ∧ op.paymasterData = none) ∨
    ∃ pm v p d, op.paymaster = some pm ∧ op.paymasterVerificationGasLimit = some v ∧
      op.paymasterPostOpGasLimit = some p ∧ op.paymasterData = some d

-- All that goes into a half of a word fits there.
structure Fits (op : RpcUserOperation) : Prop where
  verificationGasLimit : op.verificationGasLimit.toNat < 2 ^ 128
  callGasLimit : op.callGasLimit.toNat < 2 ^ 128
  maxPriorityFeePerGas : op.maxPriorityFeePerGas.toNat < 2 ^ 128
  maxFeePerGas : op.maxFeePerGas.toNat < 2 ^ 128
  paymaster : op.paymaster.isSome → (op.paymasterVerificationGasLimit.getD 0).toNat < 2 ^ 128 ∧
    (op.paymasterPostOpGasLimit.getD 0).toNat < 2 ^ 128

theorem paymasterAndData_isSome : (∃ b, op.paymasterAndData = some b) ↔
    (op.paymaster.isSome → (op.paymasterVerificationGasLimit.getD 0).toNat < 2 ^ 128 ∧
      (op.paymasterPostOpGasLimit.getD 0).toNat < 2 ^ 128) := by
  unfold RpcUserOperation.paymasterAndData
  cases op.paymaster with
  | none => simp
  | some pm =>
      simp only [Option.bind_eq_bind, Option.bind_eq_some_iff, ← toU128_isSome]
      constructor
      · rintro ⟨b, v, hv, p, hp, -⟩ -
        exact ⟨⟨v, hv⟩, p, hp⟩
      · intro h
        obtain ⟨⟨v, hv⟩, p, hp⟩ := h rfl
        exact ⟨_, v, hv, p, hp, rfl⟩

-- Packing panics on a number that does not fit, and on nothing else.
theorem packed_isSome : (∃ p, op.packed = some p) ↔ Fits op := by
  simp only [RpcUserOperation.packed, Option.bind_eq_bind, Option.bind_eq_some_iff]
  constructor
  · rintro ⟨-, b, hb, v, hv, c, hc, pr, hpr, fee, hfee, -⟩
    exact ⟨toU128_isSome.mp ⟨v, hv⟩, toU128_isSome.mp ⟨c, hc⟩, toU128_isSome.mp ⟨pr, hpr⟩,
      toU128_isSome.mp ⟨fee, hfee⟩, paymasterAndData_isSome.mp ⟨b, hb⟩⟩
  · intro h
    obtain ⟨b, hb⟩ := paymasterAndData_isSome.mpr h.paymaster
    obtain ⟨v, hv⟩ := toU128_isSome.mpr h.verificationGasLimit
    obtain ⟨c, hc⟩ := toU128_isSome.mpr h.callGasLimit
    obtain ⟨pr, hpr⟩ := toU128_isSome.mpr h.maxPriorityFeePerGas
    obtain ⟨fee, hfee⟩ := toU128_isSome.mpr h.maxFeePerGas
    exact ⟨_, b, hb, v, hv, c, hc, pr, hpr, fee, hfee, rfl⟩

theorem splitInitCode_of_initCode (h : Shaped op) (hp : p.initCode = op.initCode) :
    p.splitInitCode = (op.factory, op.factoryData) := by
  have hsome := h.factory
  rw [PackedUserOperation.splitInitCode, hp, RpcUserOperation.initCode]
  generalize op.factory = factory at *
  generalize op.factoryData = factoryData at *
  rcases factory with _ | f <;> rcases factoryData with _ | d
  · rfl
  · cases hsome
  · cases hsome
  · dsimp only
    have hne : f.bytes ++ d ≠ [] := by
      intro hempty
      have hlen := congrArg List.length hempty
      rw [List.length_append, f.length_bytes] at hlen
      simp at hlen
    rw [if_neg hne, List.take_left' f.length_bytes, List.drop_left' f.length_bytes,
      FixedBytes.ofBytes?_bytes]

theorem splitPaymasterAndData_of_paymasterAndData (h : Shaped op)
    (hp : op.paymasterAndData = some p.paymasterAndData) : p.splitPaymasterAndData = (op.paymaster,
      op.paymasterVerificationGasLimit.map BitVec.toNat, op.paymasterPostOpGasLimit.map BitVec.toNat,
      op.paymasterData) := by
  unfold RpcUserOperation.paymasterAndData at hp
  rcases h.paymaster with ⟨hpm, hv, hpost, hd⟩ | ⟨pm, v, post, d, hpm, hv, hpost, hd⟩
  · rw [hpm] at hp
    rw [PackedUserOperation.splitPaymasterAndData, ← Option.some.inj hp, if_pos rfl, hpm, hv, hpost, hd]
    rfl
  · rw [hpm, hv, hpost, hd] at hp
    simp only [Option.getD_some, Option.bind_eq_bind, Option.bind_eq_some_iff, toU128_eq_some,
      Option.some.injEq] at hp
    obtain ⟨w, hw, wpost, hwpost, hbytes⟩ := hp
    have hlt : ∀ v : BitVec 128, v.toNat < 256 ^ 16 := fun v => v.isLt
    have hfirst : (pm.bytes ++ beBytes 16 w.toNat).length = 36 := by simp
    have hsecond : (pm.bytes ++ beBytes 16 w.toNat ++ beBytes 16 wpost.toNat).length = 52 := by simp
    have hne : p.paymasterAndData ≠ [] := by
      intro hempty
      have hlen := congrArg List.length (hbytes.trans hempty)
      rw [List.length_append, hsecond] at hlen
      simp at hlen
    rw [PackedUserOperation.splitPaymasterAndData, if_neg hne, ← hbytes, List.drop_left' hsecond]
    rw [List.append_assoc (pm.bytes ++ _), List.drop_left' hfirst, List.take_left' (length_beBytes 16 _),
      List.append_assoc pm.bytes, List.drop_left' pm.length_bytes, List.take_left' pm.length_bytes,
      List.take_left' (length_beBytes 16 _), beNat_beBytes (hlt w), beNat_beBytes (hlt wpost), hw,
      hwpost, FixedBytes.ofBytes?_bytes, hpm, hv, hpost, hd]
    rfl

theorem splits_packed (h : Shaped op) (hp : op.packed = some p) : Splits p op := by
  simp only [RpcUserOperation.packed, Option.bind_eq_bind, Option.bind_eq_some_iff, toU128_eq_some,
    Option.some.injEq] at hp
  obtain ⟨b, hb, v, hv, c, hc, pr, hpr, fee, hfee, rfl⟩ := hp
  refine ⟨splitInitCode_of_initCode h rfl, ?_, ?_, splitPaymasterAndData_of_paymasterAndData h hb⟩
  · rw [splitPair_packPair, hv, hc]
  · rw [splitPair_packPair, hpr, hfee]

end Packed

-- The limits for validation and for the call: the paymaster's own, if it gives all three, or else
-- the estimate.
def BundlerAnswers.gasLimits (a : BundlerAnswers) (sponsorship : Option Sponsorship) :
    Except ChainError (U256 × U256) :=
  match sponsorship with
  | some s => match s.preVerificationGas, s.verificationGasLimit, s.callGasLimit with
    | some _, some v, some c => .ok (v, c)
    | _, _, _ => a.estimate.map fun g => (g.verificationGasLimit, g.callGasLimit)
  | none => a.estimate.map fun g => (g.verificationGasLimit, g.callGasLimit)

-- The fees and limits that are packed into halves of words fit there.
structure InRange (fees : GasPrice) (sponsorship : Option Sponsorship) (limits : U256 × U256) : Prop where
  maxFeePerGas : fees.maxFeePerGas.toNat < 2 ^ 128
  maxPriorityFeePerGas : fees.maxPriorityFeePerGas.toNat < 2 ^ 128
  verificationGasLimit : limits.1.toNat < 2 ^ 128
  callGasLimit : limits.2.toNat < 2 ^ 128
  paymaster : ∀ s, sponsorship = some s → s.paymasterVerificationGasLimit.toNat < 2 ^ 128 ∧
    s.paymasterPostOpGasLimit.toNat < 2 ^ 128

-- Everything is answered, and some number does not fit.
def BundlerAnswers.Oversized (a : BundlerAnswers) : Prop :=
  ∃ fees sponsorship limits, a.gasPrice = .ok fees ∧ a.sponsor = .ok sponsorship ∧
    a.gasLimits sponsorship = .ok limits ∧ ¬InRange fees sponsorship limits

-- What was signed is what is sent, and comes apart into its fields on chain.
structure SentAsSigned (keccak256 : Bytes → FixedBytes 32) (chainId : UInt64)
    (sign : FixedBytes 32 → Except ChainError Bytes) (run : UserOpSender.Submitted) : Prop where
  packed : ∀ hashed, run.hashed = some hashed → ∃ p, hashed.packed = some p ∧ Splits p hashed
  sent : ∀ sent, run.sent = some sent → ∃ hashed hash, run.hashed = some hashed ∧
    sent = { hashed with signature := sent.signature } ∧ hashed.hash keccak256 chainId = some hash ∧
    sign hash = .ok sent.signature

namespace UserOpSender

-- How the preparation ends: a call fails, or all are answered and their numbers are in the operation.
inductive Preparation (a : BundlerAnswers) : Except ChainError RpcUserOperation → Prop where
  | failed (e : ChainError) (hover : ¬a.Oversized) : Preparation a (.error e)
  | answered {fees : GasPrice} {sponsorship : Option Sponsorship} {limits : U256 × U256}
      {op : RpcUserOperation} (hfees : a.gasPrice = .ok fees) (hsponsor : a.sponsor = .ok sponsorship)
      (hlimits : a.gasLimits sponsorship = .ok limits) (hshape : Shaped op)
      (hfits : Fits op ↔ InRange fees sponsorship limits) : Preparation a (.ok op)

section

variable {fees : GasPrice} {sponsorship : Option Sponsorship} {limits : U256 × U256}
  {op : RpcUserOperation} {a : BundlerAnswers}

theorem fits_iff_inRange (hfee : op.maxFeePerGas = fees.maxFeePerGas)
    (hpriority : op.maxPriorityFeePerGas = fees.maxPriorityFeePerGas)
    (hverification : op.verificationGasLimit = limits.1) (hcall : op.callGasLimit = limits.2)
    (hpm : op.paymaster = sponsorship.map Sponsorship.paymaster)
    (hpmv : op.paymasterVerificationGasLimit = sponsorship.map Sponsorship.paymasterVerificationGasLimit)
    (hpmp : op.paymasterPostOpGasLimit = sponsorship.map Sponsorship.paymasterPostOpGasLimit) :
    Fits op ↔ InRange fees sponsorship limits := by
  constructor
  · rintro ⟨h₁, h₂, h₃, h₄, h₅⟩
    refine ⟨hfee ▸ h₄, hpriority ▸ h₃, hverification ▸ h₁, hcall ▸ h₂, ?_⟩
    rintro s rfl
    rw [hpm, hpmv, hpmp] at h₅
    exact h₅ rfl
  · rintro ⟨h₁, h₂, h₃, h₄, h₅⟩
    refine ⟨hverification ▸ h₃, hcall ▸ h₄, hpriority ▸ h₂, hfee ▸ h₁, ?_⟩
    rw [hpm, hpmv, hpmp]
    cases sponsorship with
    | none => exact fun h => absurd h (by decide)
    | some s => exact fun _ => h₅ s rfl

theorem shaped_operation (account : KernelAccount) (deployed : Bool) (nonce : U256) (callData : Bytes) :
    Shaped (SmartAccountWriter.operation account deployed nonce callData) :=
  ⟨by cases deployed <;> rfl, .inl ⟨rfl, rfl, rfl, rfl⟩⟩

theorem prepare_cases (stub : Bytes) (a : BundlerAnswers) (account : KernelAccount) (deployed : Bool)
    (nonce : U256) (callData : Bytes) : Preparation a
      (prepare stub a (SmartAccountWriter.operation account deployed nonce callData)) := by
  have hfactory := (shaped_operation account deployed nonce callData).factory
  obtain ⟨gasPrice, estimate, sponsor, send⟩ := a
  cases gasPrice with
  | error e => exact .failed e (by rintro ⟨_, _, _, ⟨⟩, -⟩)
  | ok fees =>
  cases sponsor with
  | error e => exact .failed e (by rintro ⟨_, _, _, -, ⟨⟩, -⟩)
  | ok sponsorship =>
  cases sponsorship with
  | none =>
      cases estimate with
      | error e => exact .failed e (by rintro ⟨_, _, _, -, ⟨⟩, ⟨⟩, -⟩)
      | ok g =>
          exact .answered rfl rfl rfl ⟨hfactory, .inl ⟨rfl, rfl, rfl, rfl⟩⟩
            (fits_iff_inRange rfl rfl rfl rfl rfl rfl rfl)
  | some s =>
      obtain ⟨pm, data, pmv, pmp, pre, verification, call⟩ := s
      rcases pre with _ | pre <;> rcases verification with _ | verification <;> rcases call with _ | call
      -- the paymaster gives its own limits
      case some.some.some =>
        exact .answered rfl rfl rfl ⟨hfactory, .inr ⟨_, _, _, _, rfl, rfl, rfl, rfl⟩⟩
          (fits_iff_inRange rfl rfl rfl rfl rfl rfl rfl)
      all_goals cases estimate with
        | error e => exact .failed e (by rintro ⟨_, _, _, -, ⟨⟩, ⟨⟩, -⟩)
        | ok g =>
            exact .answered rfl rfl rfl ⟨hfactory, .inr ⟨_, _, _, _, rfl, rfl, rfl, rfl⟩⟩
              (fits_iff_inRange rfl rfl rfl rfl rfl rfl rfl)

theorem Preparation.fits (h : Preparation a (.ok op)) : Shaped op ∧ (Fits op ↔ ¬a.Oversized) := by
  cases h with
  | answered hfees hsponsor hlimits hshape hfits =>
      refine ⟨hshape, ?_⟩
      rw [hfits, BundlerAnswers.Oversized]
      constructor
      · rintro hin ⟨fees', sponsorship', limits', hfees', hsponsor', hlimits', hover⟩
        cases hfees.symm.trans hfees'
        cases hsponsor.symm.trans hsponsor'
        cases hlimits.symm.trans hlimits'
        exact hover hin
      · intro hnone
        by_contra hover
        exact hnone ⟨_, _, _, hfees, hsponsor, hlimits, hover⟩

theorem Preparation.not_oversized {e : ChainError} (h : Preparation a (.error e)) : ¬a.Oversized := by
  cases h with
  | failed _ hover => exact hover

end

section

variable {keccak256 : Bytes → FixedBytes 32} {chainId : UInt64} {stub : Bytes}
  {sign : FixedBytes 32 → Except ChainError Bytes} {a : BundlerAnswers} {op prepared : RpcUserOperation}

-- An operation that fits is signed, and sent with that signature.
theorem submit_of_fits (hprepare : prepare stub a op = .ok prepared) (hshape : Shaped prepared)
    (hfits : Fits prepared) : ∃ run, submit keccak256 chainId stub sign a op = some run ∧
      SentAsSigned keccak256 chainId sign run := by
  obtain ⟨p, hp⟩ := packed_isSome.mpr hfits
  have hhash : prepared.hash keccak256 chainId = some (p.hash keccak256 chainId entryPointV07) := by
    rw [RpcUserOperation.hash, hp]
    rfl
  have hsplits := splits_packed hshape hp
  rw [submit, hprepare]
  simp only [hhash, Option.bind_eq_bind, Option.bind_some]
  cases hsign : sign (p.hash keccak256 chainId entryPointV07) with
  | error e =>
      refine ⟨_, rfl, ?_, ?_⟩
      · rintro hashed ⟨⟩
        exact ⟨p, hp, hsplits⟩
      · rintro sent ⟨⟩
  | ok signature =>
      refine ⟨_, rfl, ?_, ?_⟩
      · rintro hashed ⟨⟩
        exact ⟨p, hp, hsplits⟩
      · rintro sent ⟨⟩
        exact ⟨prepared, _, rfl, rfl, hhash, hsign⟩

theorem submit_of_not_fits (hprepare : prepare stub a op = .ok prepared) (hover : ¬Fits prepared) :
    submit keccak256 chainId stub sign a op = none := by
  have hnone : prepared.packed = none := by
    rw [Option.eq_none_iff_forall_ne_some]
    exact fun p hp => hover (packed_isSome.mp ⟨p, hp⟩)
  rw [submit, hprepare]
  simp only [RpcUserOperation.hash, hnone, Option.map_none, Option.bind_eq_bind, Option.bind_none]

theorem submit_of_failed {e : ChainError} (hprepare : prepare stub a op = .error e) :
    ∃ run, submit keccak256 chainId stub sign a op = some run ∧
      SentAsSigned keccak256 chainId sign run := by
  rw [submit, hprepare]
  refine ⟨_, rfl, ?_, ?_⟩
  · rintro hashed ⟨⟩
  · rintro sent ⟨⟩

end

-- Submitting comes to an end, with what was signed sent as it was signed, exactly if the answers do
-- not put a number into the operation that its half of a word cannot hold.
theorem submit_sound_iff (keccak256 : Bytes → FixedBytes 32) (chainId : UInt64) (stub : Bytes)
    (sign : FixedBytes 32 → Except ChainError Bytes) (a : BundlerAnswers) (account : KernelAccount)
    (deployed : Bool) (nonce : U256) (callData : Bytes) :
    (∃ run, submit keccak256 chainId stub sign a
        (SmartAccountWriter.operation account deployed nonce callData) = some run ∧
      SentAsSigned keccak256 chainId sign run) ↔ ¬a.Oversized := by
  have hcases := prepare_cases stub a account deployed nonce callData
  cases hprepare : prepare stub a (SmartAccountWriter.operation account deployed nonce callData) with
  | error e =>
      rw [hprepare] at hcases
      exact iff_of_true (submit_of_failed hprepare) hcases.not_oversized
  | ok prepared =>
      rw [hprepare] at hcases
      obtain ⟨hshape, hfits⟩ := hcases.fits
      rw [← hfits]
      constructor
      · rintro ⟨run, hrun, -⟩
        by_contra hover
        rw [submit_of_not_fits hprepare hover] at hrun
        cases hrun
      · exact submit_of_fits hprepare hshape

-- A bundler that asks for a fee of 2^128.
def overpriced : BundlerAnswers where
  gasPrice := .ok ⟨BitVec.ofNat 256 (2 ^ 128), 1⟩
  estimate := .ok ⟨1, 1, 1, none, none⟩
  sponsor := .ok none
  send := .ok (.replicate 32 0)

theorem not_submit_sound : ¬∀ (keccak256 : Bytes → FixedBytes 32) chainId stub sign a account deployed
    nonce callData, ∃ run, submit keccak256 chainId stub sign a
      (SmartAccountWriter.operation account deployed nonce callData) = some run := by
  intro h
  obtain ⟨run, hrun⟩ := h (fun _ => .replicate 32 0) 1 [] (fun _ => .ok []) overpriced
    ⟨.replicate 20 1, []⟩ true 0 []
  have hpanic : submit (fun _ => .replicate 32 0) 1 [] (fun _ => .ok []) overpriced
      (SmartAccountWriter.operation ⟨.replicate 20 1, []⟩ true 0 []) = none := by
    refine submit_of_not_fits rfl fun hfits => ?_
    exact absurd hfits.maxFeePerGas (by decide)
  rw [hpanic] at hrun
  cases hrun

end UserOpSender

end Zbacs.Onchain
