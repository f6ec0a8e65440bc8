import Zbacs.Agent.UserOpSigner
import Zbacs.Auth.Software.Verified
import Zbacs.Auth.Windows
import Zbacs.Onchain.Account.Deploy

namespace Zbacs.Agent.DeviceUserOpSigner

open Zbacs.Lib Zbacs.Core
open Zbacs.Auth (ApprovalAssertion ApprovalChallenge)
open Zbacs.Auth.WebAuthn (Crates verifyAssertion verifyAssertion_raw Fits verifyAssertion_webAuthn)
open Zbacs.Auth.WebAuthn.Windows (WindowsDeviceKey CngTurn normalizeLowS Signed verifyLowS_normalizeLowS
  sign_eq_ok)
open Zbacs.Agent.Setup (SignerKind P256PublicKey DeviceProfile)
open Zbacs.Contracts (Curve P256Validator Address)
open Zbacs.Onchain

-- The agent's check of an assertion and the validator's of its bytes, side by side.

-- The curve library of the contracts next to the agent's: it takes the points of the same curve, and of
-- the signatures low ones only.
structure Matches (C : Crates) (L : Curve) : Prop where
  keccak256 : L.keccak256 = C.keccak256
  isValidPublicKey : ∀ x y, L.isValidPublicKey x y = P256.onCurve x y
  verify : ∀ hash r s x y, L.verify hash r s x y = C.ecdsa.verifyLowS hash r s x y

section Encode

variable {a a' : ApprovalAssertion} {b : Bytes}

theorem encode_eq_ok : encode a = .ok b ↔
    (∃ keyId r s, a = .p256Raw keyId r s ∧ b = p256RawSignature keyId r s) ∨
    ∃ ad text r s, a = .webAuthn ad text r s ∧ b = webauthnSignature ad text r s true := by
  cases a with
  | webAuthn ad text r s => simp [encode, eq_comm]
  | p256Raw keyId r s => simp [encode, eq_comm]
  | bsa token => simp [encode]
  | otak identity mac => simp [encode]

-- What has the bytes of a raw signature is one.
theorem encode_raw {keyId r s : FixedBytes 32} (h : encode a = .ok (p256RawSignature keyId r s)) :
    a = .p256Raw keyId r s := by
  rcases encode_eq_ok.mp h with ⟨keyId', r', s', rfl, hb⟩ | ⟨ad, text, r', s', rfl, hb⟩
  · obtain ⟨rfl, rfl, rfl⟩ := p256RawSignature_inj hb
    rfl
  · have hlong := @length_webauthnSignature ad text r' s' true
    rw [← hb, length_p256RawSignature] at hlong
    omega

-- The bytes of a signature are one assertion's. A vector is at most 2^63 - 1 bytes long.
theorem encode_inj (h : encode a = .ok b) (h' : encode a' = .ok b) (hlen : b.length < 2 ^ 63) : a = a' := by
  rcases encode_eq_ok.mp h with ⟨keyId, r, s, rfl, rfl⟩ | ⟨ad, text, r, s, rfl, rfl⟩
  · exact (encode_raw h').symm
  · rcases encode_eq_ok.mp h' with ⟨keyId', r', s', rfl, hb⟩ | ⟨ad', text', r', s', rfl, hb⟩
    · rw [hb] at h
      exact encode_raw h
    · obtain ⟨rfl, rfl, rfl, rfl⟩ := webauthnSignature_inj (by omega) hb
      rfl

end Encode

section Validator

variable {C : Crates} {L : Curve} {account : Address} {hash : FixedBytes 32} {signature : Bytes}

theorem Matches.keyId (h : Matches C L) (key : P256PublicKey) :
    P256Validator.keyId L key.x key.y = Auth.WebAuthn.keyId C key := by
  rw [P256Validator.keyId, h.keccak256]
  rfl

def keyOf (v : P256Validator) (account : Address) (id : FixedBytes 32) : P256PublicKey :=
  ⟨(v.keys account id).x, (v.keys account id).y⟩

-- In every state the validator gets into: what it takes for an account is the bytes of an assertion
-- that the agent takes under a listed key.
theorem verify_iff (h : Matches C L) (txs : List P256Validator.Tx) :
    (P256Validator.run L txs).verify L account hash signature = true ↔
      ∃ id ∈ (P256Validator.run L txs).keyIds account, ∃ r s, signature = p256RawSignature id r s ∧
        verifyAssertion C (keyOf (P256Validator.run L txs) account id) hash (.p256Raw id r s) = .ok () := by
  have hset := P256Validator.keySet_run L txs account
  have hown : ∀ id ∈ (P256Validator.run L txs).keyIds account,
      Auth.WebAuthn.keyId C (keyOf (P256Validator.run L txs) account id) = id := by
    intro id hid
    rw [← h.keyId]
    exact (hset.valid id ((hset.listed id).mp hid)).2
  rw [P256Validator.verify_eq_true]
  constructor
  · rintro ⟨id, r, s, rfl, henrolled, hverify⟩
    have hid := (hset.listed id).mpr henrolled
    rw [h.verify] at hverify
    exact ⟨id, hid, r, s, rfl, verifyAssertion_raw.mpr ⟨(hown id hid).symm, hverify⟩⟩
  · rintro ⟨id, hid, r, s, rfl, hverify⟩
    obtain ⟨-, hlow⟩ := verifyAssertion_raw.mp hverify
    refine ⟨id, r, s, rfl, (hset.listed id).mp hid, ?_⟩
    rw [h.verify]
    exact hlow

-- What a device key signs is a raw signature by it, low.
theorem signUserOp_deviceKey {k : Auth.WebAuthn.Software.SoftwareDeviceKey} {about : Write} {now : UInt64}
    {signer : DeviceUserOpSigner} (hsigned : (signer.signUserOp (k.sign C) hash about now).1 = .ok signature) :
    signature = p256RawSignature (Auth.WebAuthn.keyId C (Auth.WebAuthn.Software.publicKeyOf C k.sk))
      (C.ecdsa.signLowS k.sk.scalar hash).1 (C.ecdsa.signLowS k.sk.scalar hash).2 := by
  unfold signUserOp Auth.WebAuthn.Software.SoftwareDeviceKey.sign at hsigned
  dsimp only at hsigned
  split_ifs at hsigned with hrefused
  exact (Except.ok.inj hsigned).symm

end Validator

-- The two checks agree on every assertion that goes into an operation: in every state the validator
-- gets into, it takes the bytes for the account and the hash just when they are a raw signature's that the
-- agent takes under one of the account's keys, and no other assertion has these bytes.
theorem checks_agree {C : Crates} {L : Curve} (h : Matches C L) (txs : List P256Validator.Tx)
    (account : Address) (hash : FixedBytes 32) {a : ApprovalAssertion} {b : Bytes} (hencode : encode a = .ok b)
    (hlen : b.length < 2 ^ 63) :
    ((P256Validator.run L txs).verify L account hash b = true ↔
      Auth.WebAuthn.kind a = .deviceKey ∧ ∃ id ∈ (P256Validator.run L txs).keyIds account,
        verifyAssertion C (keyOf (P256Validator.run L txs) account id) hash a = .ok ()) ∧
    ∀ a', encode a' = .ok b → a' = a := by
  refine ⟨?_, fun a' h' => encode_inj h' hencode hlen⟩
  rw [verify_iff h]
  constructor
  · rintro ⟨id, hid, r, s, rfl, hverify⟩
    rw [encode_raw hencode]
    exact ⟨rfl, id, hid, hverify⟩
  · rintro ⟨hkind, id, hid, hverify⟩
    rcases encode_eq_ok.mp hencode with ⟨keyId, r, s, rfl, rfl⟩ | ⟨ad, text, r, s, rfl, rfl⟩
    · have hset := P256Validator.keySet_run L txs account
      have hown := (hset.valid id ((hset.listed id).mp hid)).2
      have hkeyId := h.keyId (keyOf (P256Validator.run L txs) account id)
      obtain ⟨rfl, -⟩ := verifyAssertion_raw.mp hverify
      rw [← hkeyId] at hverify ⊢
      dsimp only [keyOf] at hverify ⊢
      rw [hown] at hverify ⊢
      exact ⟨id, hid, r, s, rfl, hverify⟩
    · cases hkind

-- What stands in while gas is estimated authorises nothing: no validator takes it in any state, and
-- every assertion with these bytes is refused under every key and for every challenge.
theorem stub_refused {C : Crates} {L : Curve} (h : Matches C L) (kind : SignerKind)
    (txs : List P256Validator.Tx) (account : Address) (hash : FixedBytes 32) :
    (P256Validator.run L txs).verify L account hash (stubSignature kind) = false ∧
    ∀ a, encode a = .ok (stubSignature kind) → ∀ key challenge, verifyAssertion C key challenge a ≠ .ok () := by
  have hhigh : P256.isHigh (.replicate 32 0xaa) = true := by decide +kernel
  have hraw : ∀ key challenge id, verifyAssertion C key challenge
      (.p256Raw id (.replicate 32 0xaa) (.replicate 32 0xaa)) ≠ .ok () := by
    intro key challenge id hverify
    obtain ⟨-, hlow⟩ := verifyAssertion_raw.mp hverify
    obtain ⟨-, -, -, hlow, -⟩ := Ecdsa.verifyLowS_iff.mp hlow
    rw [hhigh] at hlow
    cases hlow
  have hall : ∀ a, encode a = .ok (stubSignature kind) →
      ∀ key challenge, verifyAssertion C key challenge a ≠ .ok () := by
    intro a ha key challenge
    cases hkind : kind with
    | platformPasskey =>
        rw [hkind] at ha
        have hlen : (stubSignature .platformPasskey).length < 2 ^ 63 := by decide +kernel
        intro hverify
        rcases encode_eq_ok.mp ha with ⟨keyId, r, s, rfl, hb⟩ | ⟨ad, text, r, s, rfl, hb⟩
        · have hlong : 96 < (stubSignature .platformPasskey).length := by decide +kernel
          rw [hb, length_p256RawSignature] at hlong
          omega
        · rw [stubSignature] at hb hlen
          obtain ⟨rfl, -⟩ := webauthnSignature_inj (by omega) hb
          have hup := (verifyAssertion_webAuthn.mp hverify).1.up
          cases hup
    | deviceKey | bsa | otak =>
        rw [hkind] at ha
        rw [encode_raw ha]
        exact hraw key challenge _
  refine ⟨?_, hall⟩
  rw [← Bool.not_eq_true, verify_iff h]
  rintro ⟨id, -, r, s, hbytes, hverify⟩
  exact hall (.p256Raw id r s) (by rw [hbytes]; rfl) _ _ hverify

-- The first operation of an owner whose device has a key of its own carries all that it needs: it
-- deploys the account it is sent from, with our validator and this device's key, and what the device signed
-- for it is taken then, and for as long as nothing but other people's calls come to the validator.
theorem first_operation_verifies {C : Crates} {L : Curve} (hE : C.ecdsa.Correct) (h : Matches C L)
    (k : Auth.WebAuthn.Software.SoftwareDeviceKey) (profile : DeviceProfile)
    (hsigner : profile.signer = .deviceKey)
    (hkey : profile.publicKey = some (Auth.WebAuthn.Software.publicKeyOf C k.sk)) (validator : Address) :
    ∃ root, rootValidatorFor profile (some validator) = some root ∧
      ∀ (txs : List P256Validator.Tx) (nonce : U256) (data : Bytes) (hash : FixedBytes 32) (about : Write)
        (now : UInt64) (signer : DeviceUserOpSigner) (signature : Bytes),
        (P256Validator.run L txs).keyIds ((Aa.KernelAccount.new root).address C.keccak256) = [] →
        (signer.signUserOp (k.sign C) hash about now).1 = .ok signature →
        let op := SmartAccountWriter.operation ((Aa.KernelAccount.new root).sending C.keccak256) false nonce data
        ∃ d, readInitCode C.keccak256 op.initCode = some d ∧ d.account = op.sender ∧ d.validator = validator ∧
          ∀ rest : List P256Validator.Tx, (∀ tx ∈ rest, tx.sender ≠ d.account) →
            (P256Validator.run L (txs ++ [⟨d.account, .onInstall d.installData⟩] ++ rest)).verify L d.account
              hash signature = true := by
  let key := Auth.WebAuthn.Software.publicKeyOf C k.sk
  refine ⟨.deviceKey validator key.x key.y profile.requireOsConfirm, ?_, ?_⟩
  · rw [rootValidatorFor, hkey, hsigner]
    rfl
  · intro txs nonce data hash about now signer signature hnone hsigned
    have hvalid := hE.onCurve_publicKey k.sk.scalar k.sk.isScalar
    rw [← h.isValidPublicKey] at hvalid
    refine ⟨_, (operation_initCode _ nonce data).symm ▸ readInitCode_initCode _, rfl, rfl, fun rest hrest => ?_⟩
    obtain ⟨-, -, hverify⟩ := @installed_run L _ validator _ _ profile.requireOsConfirm C.keccak256 txs rest
      hvalid hnone hrest
    refine (hverify hash signature).mpr ⟨(C.ecdsa.signLowS k.sk.scalar hash).1,
      (C.ecdsa.signLowS k.sk.scalar hash).2, ?_, ?_⟩
    · rw [signUserOp_deviceKey hsigned, ← h.keyId]
      rfl
    · rw [h.verify]
      exact hE.verifyLowS_signLowS k.sk.isScalar hash

namespace Reference

open Auth.WebAuthn.Software.Reference (crates secret)

def curve : Curve where
  keccak256 := crates.keccak256
  isValidPublicKey := P256.onCurve
  verify := crates.ecdsa.verifyLowS

theorem curve_matches : Matches crates curve := ⟨rfl, fun _ _ => rfl, fun _ _ _ _ _ => rfl⟩

def owner : Address := .replicate 20 7

def hash : FixedBytes 32 := .replicate 32 9

def installs : List P256Validator.Tx :=
  [⟨owner, .onInstall (Ecdsa.baseX.bytes ++ Ecdsa.baseY.bytes ++ [1])⟩]

def signed : ApprovalAssertion :=
  let id := Auth.WebAuthn.keyId crates (Auth.WebAuthn.Software.publicKeyOf crates secret)
  let (r, s) := Auth.WebAuthn.Software.signLowS crates secret hash
  .p256Raw id r s

theorem signed_agrees : ∃ b, encode signed = .ok b ∧ b.length < 2 ^ 63 ∧
    (P256Validator.run curve installs).verify curve owner hash b = true := by
  obtain ⟨b, hencode⟩ : ∃ b, encode signed = .ok b := ⟨_, rfl⟩
  have hlen : b.length < 2 ^ 63 := by
    obtain rfl := Except.ok.inj hencode
    decide +kernel
  have hlisted : ∃ id ∈ (P256Validator.run curve installs).keyIds owner, verifyAssertion crates
      (keyOf (P256Validator.run curve installs) owner id) hash signed = .ok () := by
    refine ⟨P256Validator.keyId curve Ecdsa.baseX Ecdsa.baseY, ?_, ?_⟩
    · decide +kernel
    · decide +kernel
  exact ⟨b, hencode, hlen, (checks_agree curve_matches installs owner hash hencode hlen).1.mpr ⟨rfl, hlisted⟩⟩

theorem stub_refused_installed : Matches crates curve ∧
    (P256Validator.run curve installs).verify curve owner hash (stubSignature .deviceKey) = false :=
  ⟨curve_matches, (stub_refused curve_matches .deviceKey installs owner hash).1⟩

def profile : DeviceProfile :=
  ⟨1, .thisDevice, .deviceKey, .replicate 32 0, some (Auth.WebAuthn.Software.publicKeyOf crates secret), [],
    false, false, .replicate 32 1, .replicate 32 2, .replicate 32 3, .replicate 32 4, none, false, 0⟩

theorem first_bump_verifies : crates.ecdsa.Correct ∧ Matches crates curve ∧
    ∃ root, rootValidatorFor profile (some (.replicate 20 4)) = some root ∧
      ∃ signature d, readInitCode crates.keccak256 (SmartAccountWriter.operation
          ((Aa.KernelAccount.new root).sending crates.keccak256) false 0 []).initCode = some d ∧
        (P256Validator.run curve [⟨d.account, .onInstall d.installData⟩]).verify curve d.account hash
          signature = true := by
  obtain ⟨root, hroot, hfirst⟩ := first_operation_verifies Ecdsa.atOne_correct curve_matches ⟨secret, false⟩
    profile rfl rfl (.replicate 20 4)
  obtain ⟨d, hread, -, -, hverify⟩ := hfirst [] 0 [] hash (.bumpVersion (.replicate 32 5)) 0
    (.new .notRequired) _ rfl rfl
  exact ⟨Ecdsa.atOne_correct, curve_matches, root, hroot, _, d, hread,
    hverify [] fun tx h => absurd h List.not_mem_nil⟩

end Reference

-- The same two checks, with a TPM's signature between them.

section Tpm

variable {C : Crates} {L : Curve} {account : Address} {hash r s : FixedBytes 32} {id : FixedBytes 32}

-- The agent's check of a folded signature is the equation for what it was folded from.
theorem verifyAssertion_normalizeLowS (hE : C.ecdsa.Correct) {key : Setup.P256PublicKey} :
    verifyAssertion C key hash (.p256Raw id (normalizeLowS r s).1 (normalizeLowS r s).2) = .ok () ↔
      id = Auth.WebAuthn.keyId C key ∧ Signed C key hash r s := by
  rw [verifyAssertion_raw, verifyLowS_normalizeLowS hE]

-- And so is the validator's, under the key it has by that id.
theorem verify_normalizeLowS (hE : C.ecdsa.Correct) (h : Matches C L) (txs : List P256Validator.Tx) :
    (P256Validator.run L txs).verify L account hash
        (p256RawSignature id (normalizeLowS r s).1 (normalizeLowS r s).2) = true ↔
      id ∈ (P256Validator.run L txs).keyIds account ∧
        Signed C (keyOf (P256Validator.run L txs) account id) hash r s := by
  have hset := P256Validator.keySet_run L txs account
  rw [verify_iff h]
  constructor
  · rintro ⟨id', hid, r', s', hbytes, hverify⟩
    obtain ⟨rfl, rfl, rfl⟩ := p256RawSignature_inj hbytes
    exact ⟨hid, ((verifyAssertion_normalizeLowS hE).mp hverify).2⟩
  · rintro ⟨hid, hsigned⟩
    have hown := (hset.valid id ((hset.listed id).mp hid)).2
    have hkeyId := h.keyId (keyOf (P256Validator.run L txs) account id)
    refine ⟨id, hid, _, _, rfl, (verifyAssertion_normalizeLowS hE).mpr ⟨?_, hsigned⟩⟩
    rw [← hkeyId]
    exact hown.symm

-- What goes into an operation from a TPM is what the store wrote, folded, under the key's id.
theorem signUserOp_windows {k : WindowsDeviceKey} {t : CngTurn} {about : Write} {now : UInt64}
    {signer : DeviceUserOpSigner} {signature : Bytes}
    (hsigned : (signer.signUserOp (fun _ => k.sign C t) hash about now).1 = .ok signature) :
    ∃ len written r s, t.size = .ok len ∧ t.signs = .ok written ∧
      CngTurn.buffer len written = r.bytes ++ s.bytes ∧
      signature = p256RawSignature (Auth.WebAuthn.keyId C k.publicKey) (normalizeLowS r s).1
        (normalizeLowS r s).2 := by
  unfold signUserOp at hsigned
  dsimp only at hsigned
  cases hsign : k.sign C t (signer.asks about now).2 with
  | error e =>
      rw [hsign] at hsigned
      cases hsigned
  | ok a =>
      obtain ⟨len, written, r, s, hsize, hwritten, hbuffer, rfl⟩ := sign_eq_ok hsign
      rw [hsign] at hsigned
      exact ⟨len, written, r, s, hsize, hwritten, hbuffer, (Except.ok.inj hsigned).symm⟩

end Tpm

-- The store may write a high signature or a low one: in every state the validator gets into, it takes
-- what goes into the operation just when the account has the key's id listed and the two numbers the store
-- wrote meet the equation for the key under it, and the agent's own check says of the same bytes
-- whether they do for the key the store gave out.
theorem windows_signature_taken {C : Crates} {L : Curve} (hE : C.ecdsa.Correct) (h : Matches C L)
    (txs : List P256Validator.Tx) (account : Address) (hash : FixedBytes 32) (k : WindowsDeviceKey)
    (t : CngTurn) (about : Write) (now : UInt64) (signer : DeviceUserOpSigner) {signature : Bytes}
    (hsigned : (signer.signUserOp (fun _ => k.sign C t) hash about now).1 = .ok signature) :
    ∃ len written r s, t.size = .ok len ∧ t.signs = .ok written ∧
      CngTurn.buffer len written = r.bytes ++ s.bytes ∧
      ((P256Validator.run L txs).verify L account hash signature = true ↔
        Auth.WebAuthn.keyId C k.publicKey ∈ (P256Validator.run L txs).keyIds account ∧
          Signed C (keyOf (P256Validator.run L txs) account (Auth.WebAuthn.keyId C k.publicKey)) hash r s) ∧
      ∀ a, encode a = .ok signature →
        (verifyAssertion C k.publicKey hash a = .ok () ↔ Signed C k.publicKey hash r s) := by
  obtain ⟨len, written, r, s, hsize, hwritten, hbuffer, rfl⟩ := signUserOp_windows hsigned
  refine ⟨len, written, r, s, hsize, hwritten, hbuffer, verify_normalizeLowS hE h txs, fun a ha => ?_⟩
  rw [encode_raw ha, verifyAssertion_normalizeLowS hE, and_iff_right rfl]

namespace Reference

open Auth.WebAuthn.Software.Reference (crates)

def inTpm : WindowsDeviceKey := ⟨⟨Ecdsa.baseX, Ecdsa.baseY⟩, false⟩

-- The store writes the high one of the two.
def highTurn : CngTurn := ⟨.ok 64, .ok (Ecdsa.baseX.bytes ++ (P256.negate (Ecdsa.sum hash)).bytes)⟩

def highSignature : Bytes :=
  p256RawSignature (Auth.WebAuthn.keyId crates inTpm.publicKey)
    (normalizeLowS Ecdsa.baseX (P256.negate (Ecdsa.sum hash))).1
    (normalizeLowS Ecdsa.baseX (P256.negate (Ecdsa.sum hash))).2

theorem high_signature_taken : crates.ecdsa.Correct ∧ Matches crates curve ∧
    P256.isHigh (P256.negate (Ecdsa.sum hash)) = true ∧
    (P256Validator.run curve installs).verify curve owner hash highSignature = true := by
  have hsigned : ((DeviceUserOpSigner.new .notRequired).signUserOp (fun _ => inTpm.sign crates highTurn) hash
      (.bumpVersion (.replicate 32 5)) 0).1 = .ok highSignature := by
    decide +kernel
  obtain ⟨len, written, r, s, hsize, hwritten, hbuffer, htaken, -⟩ := windows_signature_taken
    Ecdsa.atOne_correct curve_matches installs owner hash inTpm highTurn _ 0 _ hsigned
  obtain rfl : 64 = len := Except.ok.inj hsize
  obtain rfl := Except.ok.inj hwritten
  have hfull : CngTurn.buffer 64 (Ecdsa.baseX.bytes ++ (P256.negate (Ecdsa.sum hash)).bytes) =
      Ecdsa.baseX.bytes ++ (P256.negate (Ecdsa.sum hash)).bytes := List.take_left' (by
    rw [List.length_append, FixedBytes.length_bytes, FixedBytes.length_bytes])
  obtain ⟨hr, hs⟩ := List.append_inj (hfull.symm.trans hbuffer) (by
    rw [FixedBytes.length_bytes, FixedBytes.length_bytes])
  obtain rfl : Ecdsa.baseX = r := FixedBytes.ext hr
  obtain rfl : P256.negate (Ecdsa.sum hash) = s := FixedBytes.ext hs
  refine ⟨Ecdsa.atOne_correct, curve_matches, by decide +kernel, htaken.mpr ⟨by decide +kernel, ?_⟩⟩
  unfold Signed
  decide +kernel

end Reference

end Zbacs.Agent.DeviceUserOpSigner
