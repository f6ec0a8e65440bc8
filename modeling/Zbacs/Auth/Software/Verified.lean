import Zbacs.Auth.Software
import Zbacs.Core.Reference
import Zbacs.Lib.Trace

namespace Zbacs.Auth.WebAuthn.Software

open Zbacs.Lib Zbacs.Lib.Json
open Zbacs.Core (utf8)
open Zbacs.Agent (Confirmation)
open Zbacs.Agent.Setup (SignerKind P256PublicKey ApprovalStyle Signer DeviceProfile)

-- What the signers sign passes the check, for the one challenge it was signed for.

section ClientData

theorem isPlain_toDigit (n : Nat) : isPlain (Base64.toDigit n) = true := by
  have hall : ∀ n : Fin 64, isPlain (Base64.toDigit n) = true := by decide
  by_cases h : n < 64
  · exact hall ⟨n, h⟩
  · have hlast : Base64.toDigit n = '_' := by
      rw [Base64.toDigit, if_neg (by omega), if_neg (by omega), if_neg (by omega), if_neg (by omega)]
    rw [hlast]
    decide

theorem isPlain_encode (b : Bytes) : ∀ c ∈ Base64.encode b, isPlain c = true := by
  induction b using Base64.encode.induct with
  | case1 => simp [Base64.encode]
  | case2 a => simp [Base64.encode, isPlain_toDigit]
  | case3 a b => simp [Base64.encode, isPlain_toDigit]
  | case4 a b c rest ih => simpa [Base64.encode, isPlain_toDigit] using ih

def clientMembers (digest : FixedBytes 32) (origin : String) : List (List Char × Plain) :=
  [("type".toList, .string "webauthn.get".toList),
    ("challenge".toList, .string (Base64.encode digest.bytes)), ("origin".toList, .string origin.toList),
    ("crossOrigin".toList, .bool false)]

theorem clientData_eq (digest : FixedBytes 32) (origin : String) :
    clientData digest origin = String.ofList (objectText (clientMembers digest origin)) := by
  apply String.toList_inj.mp
  unfold clientData
  simp only [String.toList_append, String.toList_ofList, objectText, clientMembers, membersText,
    memberText, Plain.text]
  simp

theorem clientMembers_plain {digest : FixedBytes 32} {origin : String}
    (h : ∀ c ∈ origin.toList, isPlain c = true) : PlainObject (clientMembers digest origin) := by
  refine ⟨?_, ?_⟩
  · intro m hm
    simp only [clientMembers, List.mem_cons, List.not_mem_nil, or_false] at hm
    have hkeys : ∀ key ∈ ["type", "challenge", "origin", "crossOrigin", "webauthn.get"],
        key.toList.all isPlain = true := by decide +kernel
    have hkey : ∀ key ∈ ["type", "challenge", "origin", "crossOrigin", "webauthn.get"],
        ∀ c ∈ key.toList, isPlain c = true := fun key hmem => List.all_eq_true.mp (hkeys key hmem)
    rcases hm with rfl | rfl | rfl | rfl
    · exact ⟨hkey "type" (by simp), hkey "webauthn.get" (by simp)⟩
    · exact ⟨hkey "challenge" (by simp), isPlain_encode _⟩
    · exact ⟨hkey "origin" (by simp), h⟩
    · exact ⟨hkey "crossOrigin" (by simp), trivial⟩
  · have hnodup : ["type".toList, "challenge".toList, "origin".toList, "crossOrigin".toList].Nodup := by
      decide +kernel
    exact hnodup

end ClientData

section Sign

variable {C : Crates} {digest : FixedBytes 32} {origin : String}

theorem clientData_reads (hjson : ReadsPlainObjects C.fromStr)
    (h : ∀ c ∈ origin.toList, isPlain c = true) :
    clientDataChallenge C (clientData digest origin) = .ok digest.bytes := by
  rw [clientDataChallenge_eq_ok, clientData_eq]
  refine ⟨_, hjson _ (clientMembers_plain h), ?_, ?_⟩
  · simp [objectOf, clientMembers, Plain.value, Value.get, Value.asStr]
  · simp [objectOf, clientMembers, Plain.value, Value.get, Value.asStr]

variable {p : SoftwarePasskey} {k : SoftwareDeviceKey} {challenge : ApprovalChallenge}
  {confirmation : Confirmation} {assertion : ApprovalAssertion}

theorem flags_seen (p : SoftwarePasskey) :
    (⟨p.flags⟩ : AuthenticatorFlags).up = true ∧ (⟨p.flags⟩ : AuthenticatorFlags).uv = true := by
  unfold SoftwarePasskey.flags
  cases p.synced <;> decide

theorem passkey_verifies (hE : C.ecdsa.Correct) (hjson : ReadsPlainObjects C.fromStr)
    (horigin : ∀ c ∈ p.origin.toList, isPlain c = true) (other : FixedBytes 32) :
    verifyAssertion C (publicKeyOf C p.sk) other (p.sign C challenge).1 =
      if other = challenge.digest then .ok () else .error .challengeMismatch := by
  have hreads : clientDataChallenge C (clientData challenge.digest p.origin) = .ok challenge.digest.bytes :=
    clientData_reads hjson horigin
  obtain ⟨hup, huv⟩ := flags_seen p
  have hlong : 37 ≤ ((C.sha256 (utf8 p.rpId)).bytes ++ [p.flags] ++
      beBytes 4 (p.counter + 1).toNat).length := by simp
  obtain ⟨ad, hparse, hflags⟩ := exists_parse hlong
  have hbyte : ((C.sha256 (utf8 p.rpId)).bytes ++ [p.flags] ++
      beBytes 4 (p.counter + 1).toNat).getD 32 0 = p.flags := by
    rw [List.append_assoc, List.getD_eq_getElem?_getD, List.getElem?_append_right (by simp)]
    simp
  rw [hbyte] at hflags
  have hverified : verifyP256 C (publicKeyOf C p.sk) (webauthnSignedDigest C
      ((C.sha256 (utf8 p.rpId)).bytes ++ [p.flags] ++ beBytes 4 (p.counter + 1).toNat)
      (clientData challenge.digest p.origin)) (C.ecdsa.signLowS p.sk.scalar (webauthnSignedDigest C
      ((C.sha256 (utf8 p.rpId)).bytes ++ [p.flags] ++ beBytes 4 (p.counter + 1).toNat)
      (clientData challenge.digest p.origin))).1 (C.ecdsa.signLowS p.sk.scalar (webauthnSignedDigest C
      ((C.sha256 (utf8 p.rpId)).bytes ++ [p.flags] ++ beBytes 4 (p.counter + 1).toNat)
      (clientData challenge.digest p.origin))).2 = .ok () :=
    verifyP256_eq_ok.mpr (hE.verifyLowS_signLowS p.sk.isScalar _)
  have hseen : (!(ad.flags.up && ad.flags.uv)) = false := by
    rw [hflags, hup, huv]
    rfl
  rw [SoftwarePasskey.sign, verifyAssertion, hparse]
  simp only [ok_bind, hseen, hreads]
  by_cases hother : other = challenge.digest
  · subst hother
    rw [if_neg Bool.false_ne_true, if_neg (not_not_intro rfl), if_pos rfl]
    exact hverified
  · have hbytes : challenge.digest.bytes ≠ other.bytes := fun h => hother (FixedBytes.ext h).symm
    rw [if_neg Bool.false_ne_true, if_pos hbytes, if_neg hother]

theorem deviceKey_verifies (hE : C.ecdsa.Correct) (h : k.sign C challenge confirmation = .ok assertion) :
    verifyAssertion C (publicKeyOf C k.sk) challenge.digest assertion = .ok () := by
  rw [SoftwareDeviceKey.sign, ite_error_eq_ok] at h
  obtain ⟨-, h⟩ := h
  cases h
  exact verifyAssertion_raw.mpr ⟨rfl, hE.verifyLowS_signLowS k.sk.isScalar _⟩

end Sign

-- What a call may show of the key.
structure Shows (C : Crates) (key : P256PublicKey) (x : Taken Machine SignerCall SignerAnswer) : Prop where
  built : ∀ signer, x.output = .built (.ok signer) →
    signer.publicKey = some key ∧ signer.keyId = keyId C key
  verifies : ∀ i challenge confirmation assertion, x.input = .sign i challenge confirmation →
    x.output = .signed (.ok assertion) → verifyAssertion C key challenge.digest assertion = .ok ()
  -- a passkey's is for one challenge
  only : ∀ i challenge confirmation ad text r s, x.input = .sign i challenge confirmation →
    x.output = .signed (.ok (.webAuthn ad text r s)) → ∀ other, other ≠ challenge.digest →
      verifyAssertion C key other (.webAuthn ad text r s) = .error .challengeMismatch
  -- nothing else keeps a signer from signing
  refused : ∀ i challenge confirmation e, x.input = .sign i challenge confirmation →
    x.output = .signed (.error e) →
      confirmation = .osUserVerification ∧ e = .confirmationUnavailable .deviceKey .osUserVerification

-- A call that shows nothing.
def Quiet (x : Taken Machine SignerCall SignerAnswer) : Prop :=
  (∀ signer, x.output ≠ .built (.ok signer)) ∧ ∀ result, x.output ≠ .signed result

section Machine

variable {C : Crates} {f : SoftwareSignerFactory} {s : Machine} {key : P256PublicKey}

theorem Quiet.shows {x : Taken Machine SignerCall SignerAnswer} (h : Quiet x) : Shows C key x where
  built signer hsigner := absurd hsigner (h.1 signer)
  verifies _ _ _ assertion _ hsigned := absurd hsigned (h.2 (.ok assertion))
  only _ _ _ ad text r s _ hsigned := absurd hsigned (h.2 (.ok (.webAuthn ad text r s)))
  refused _ _ _ e _ hsigned := absurd hsigned (h.2 (.error e))

-- The key behind the entry, if it is one.
def storedKey (entry : Option Bytes) : Option SigningKey :=
  entry.bind fun b => (SigningKey.fromSlice b).toOption

-- A signer of the factory with this key.
def Made (f : SoftwareSignerFactory) (sk : SigningKey) : Provider → Prop
  | .passkey p => p.sk = sk ∧ p.origin = f.origin
  | .deviceKey k => k.sk = sk

theorem Made.sk_eq {sk : SigningKey} {p : Provider} (h : Made f sk p) : p.sk = sk := by
  cases p with
  | passkey p => exact h.1
  | deviceKey k => exact h

-- Every signer has the stored key, and every call so far fits it. Where no key is stored there is no
-- signer, and there was none.
def Kept (C : Crates) (f : SoftwareSignerFactory) (log : List (Taken Machine SignerCall SignerAnswer))
    (s : Machine) : Prop :=
  match storedKey s.entry with
  | some sk => (∀ p ∈ s.providers, Made f sk p) ∧ ∀ x ∈ log, Shows C (publicKeyOf C sk) x
  | none => s.providers = [] ∧ ∀ x ∈ log, Quiet x

-- What is under the entry stays there, and what the factory goes on with is what is there.
theorem scalar_spec (fresh : SigningKey) (t : StoreTurn) (entry : Option Bytes) :
    ((SoftwareSignerFactory.scalar fresh t entry).2 = entry ∨
      entry = none ∧ (SoftwareSignerFactory.scalar fresh t entry).2 = some fresh.scalar.bytes) ∧
    ∀ b, (SoftwareSignerFactory.scalar fresh t entry).1 = .ok b →
      (SoftwareSignerFactory.scalar fresh t entry).2 = some b := by
  unfold SoftwareSignerFactory.scalar
  by_cases hgets : t.gets = true
  · cases entry with
    | some found => simp [hgets]
    | none =>
        by_cases hputs : t.puts = true
        · simp [hgets, hputs]
        · by_cases hstored : t.stored = true
          · simp [hgets, hputs, hstored]
          · simp [hgets, hputs, hstored]
  · simp [hgets]

theorem build_made {style : Agent.Setup.ApprovalStyle} {requireOsConfirm : Bool} {scalar : Bytes}
    {p : Provider} (h : f.build style requireOsConfirm scalar = .ok p) :
    ∃ sk, SigningKey.fromSlice scalar = .ok sk ∧ Made f sk p := by
  unfold SoftwareSignerFactory.build at h
  cases style with
  | biometric =>
      simp only [SoftwarePasskey.fromSecret, bind_eq_ok, Except.ok.injEq] at h
      obtain ⟨_, ⟨sk, hsk, rfl⟩, rfl⟩ := h
      exact ⟨sk, hsk, rfl, rfl⟩
  | thisDevice =>
      simp only [SoftwareDeviceKey.fromSecret, bind_eq_ok, Except.ok.injEq] at h
      obtain ⟨_, ⟨sk, hsk, rfl⟩, rfl⟩ := h
      exact ⟨sk, hsk, rfl⟩

variable {log : List (Taken Machine SignerCall SignerAnswer)}
  {x : Taken Machine SignerCall SignerAnswer} {entry : Option Bytes} {sk : SigningKey}

theorem Kept.of_some (h : Kept C f log s) (hstored : storedKey s.entry = some sk) :
    (∀ p ∈ s.providers, Made f sk p) ∧ ∀ x ∈ log, Shows C (publicKeyOf C sk) x := by
  rw [Kept, hstored] at h
  exact h

theorem Kept.of_none (h : Kept C f log s) (hstored : storedKey s.entry = none) :
    s.providers = [] ∧ ∀ x ∈ log, Quiet x := by
  rw [Kept, hstored] at h
  exact h

-- A key that has just been stored fits whatever there was.
theorem Kept.next (h : Kept C f log s) (hentry : entry = s.entry ∨ s.entry = none)
    (hstored : storedKey entry = some sk) :
    (∀ p ∈ s.providers, Made f sk p) ∧ ∀ x ∈ log, Shows C (publicKeyOf C sk) x := by
  rcases hentry with rfl | hnone
  · exact h.of_some hstored
  · obtain ⟨hproviders, hquiet⟩ := h.of_none (by rw [hnone]; rfl)
    rw [hproviders]
    exact ⟨fun p hp => absurd hp List.not_mem_nil, fun x hx => (hquiet x hx).shows⟩

-- A call that shows nothing and makes no signer.
theorem Kept.quiet (h : Kept C f log s) (hentry : entry = s.entry ∨ s.entry = none) (hx : Quiet x) :
    Kept C f (log ++ [x]) { s with entry } := by
  cases hstored : storedKey entry with
  | some sk =>
      obtain ⟨hproviders, hlog⟩ := h.next hentry hstored
      simp only [Kept, hstored, List.forall_mem_append, List.forall_mem_singleton]
      exact ⟨hproviders, hlog, hx.shows⟩
  | none =>
      have hnone : storedKey s.entry = none := by
        rcases hentry with rfl | hnone
        · exact hstored
        · rw [hnone]
          rfl
      obtain ⟨hproviders, hlog⟩ := h.of_none hnone
      simp only [Kept, hstored, List.forall_mem_append, List.forall_mem_singleton]
      exact ⟨hproviders, hlog, hx⟩

theorem Made.sign {p : Provider} (h : Made f sk p) (challenge : ApprovalChallenge)
    (confirmation : Confirmation) : Made f sk (p.sign C challenge confirmation).2 := by
  cases p with
  | passkey p => exact h
  | deviceKey k => exact h

theorem shows_sign (hE : C.ecdsa.Correct) (hjson : ReadsPlainObjects C.fromStr)
    (horigin : ∀ c ∈ f.origin.toList, isPlain c = true) {p : Provider} (h : Made f sk p) {i : Nat}
    {challenge : ApprovalChallenge} {confirmation : Confirmation} {s' : Machine} :
    Shows C (publicKeyOf C sk) ⟨s, .sign i challenge confirmation,
      .signed (p.sign C challenge confirmation).1, s'⟩ := by
  cases p with
  | passkey p =>
      obtain ⟨rfl, ho⟩ := h
      have hverify := fun other => @passkey_verifies C p challenge hE hjson (ho ▸ horigin) other
      have hsigned : (Provider.sign C (.passkey p) challenge confirmation).1 = .ok (p.sign C challenge).1 :=
        rfl
      constructor
      · rintro signer ⟨⟩
      · rintro _ _ _ assertion ⟨⟩ hout
        rw [hsigned] at hout
        cases hout
        rw [hverify, if_pos rfl]
      · rintro _ _ _ ad text r s ⟨⟩ hout other hother
        rw [hsigned] at hout
        simp only [SignerAnswer.signed.injEq, Except.ok.injEq] at hout
        rw [← hout, hverify, if_neg hother]
      · rintro _ _ _ e ⟨⟩ hout
        rw [hsigned] at hout
        cases hout
  | deviceKey k =>
      have hk : k.sk = sk := h
      subst hk
      have hsigned : (Provider.sign C (.deviceKey k) challenge confirmation).1 =
        k.sign C challenge confirmation := rfl
      constructor
      · rintro signer ⟨⟩
      · rintro _ _ _ assertion ⟨⟩ hout
        rw [hsigned] at hout
        exact deviceKey_verifies hE (SignerAnswer.signed.inj hout)
      · rintro _ _ _ ad text r s ⟨⟩ hout
        rw [hsigned, SoftwareDeviceKey.sign] at hout
        split_ifs at hout
        · cases hout
        · cases hout
      · rintro _ _ _ e ⟨⟩ hout
        rw [hsigned, SoftwareDeviceKey.sign] at hout
        split_ifs at hout with hrefused
        · cases hout
          exact ⟨hrefused.1, congrArg _ hrefused.1⟩
        · cases hout

theorem Kept.build (h : Kept C f log s) (call : SignerCall) (style : Agent.Setup.ApprovalStyle)
    (requireOsConfirm : Bool) (fresh : SigningKey) (t : StoreTurn) :
    Kept C f (log ++ [⟨s, call, (s.build C f style requireOsConfirm fresh t).1,
      (s.build C f style requireOsConfirm fresh t).2⟩]) (s.build C f style requireOsConfirm fresh t).2 := by
  obtain ⟨hentry, hfound⟩ := scalar_spec fresh t s.entry
  have hkept : (SoftwareSignerFactory.scalar fresh t s.entry).2 = s.entry ∨ s.entry = none :=
    hentry.imp id And.left
  unfold Machine.build
  dsimp only
  cases hbuild : (SoftwareSignerFactory.scalar fresh t s.entry).1.bind (f.build style requireOsConfirm) with
  | error e =>
      refine h.quiet hkept ⟨?_, ?_⟩
      · rintro signer ⟨⟩
      · rintro result ⟨⟩
  | ok p =>
      obtain ⟨scalar, hscalar, hp⟩ := bind_eq_ok.mp hbuild
      obtain ⟨sk, hsk, hmade⟩ := build_made hp
      have hstored : storedKey (SoftwareSignerFactory.scalar fresh t s.entry).2 = some sk := by
        rw [hfound scalar hscalar, storedKey, Option.bind_some, hsk]
        rfl
      obtain ⟨hproviders, hlog⟩ := h.next hkept hstored
      simp only [Kept, hstored, List.forall_mem_append, List.forall_mem_singleton]
      refine ⟨⟨hproviders, hmade⟩, hlog, ?_⟩
      constructor
      · rintro signer ⟨⟩
        exact ⟨congrArg (fun sk => some (publicKeyOf C sk)) hmade.sk_eq,
          congrArg (fun sk => keyId C (publicKeyOf C sk)) hmade.sk_eq⟩
      · rintro _ _ _ assertion _ ⟨⟩
      · rintro _ _ _ ad text r s _ ⟨⟩
      · rintro _ _ _ e _ ⟨⟩

theorem Kept.step (hE : C.ecdsa.Correct) (hjson : ReadsPlainObjects C.fromStr)
    (horigin : ∀ c ∈ f.origin.toList, isPlain c = true) (h : Kept C f log s) (call : SignerCall) :
    Kept C f (log ++ [taken (Machine.step C f) s call]) (s.step C f call).2 := by
  cases call with
  | create style requireOsConfirm fresh t => exact h.build _ style requireOsConfirm fresh t
  | reopen profile fresh t => exact h.build _ profile.style profile.requireOsConfirm fresh t
  | sign i challenge confirmation =>
      cases hi : s.providers[i]? with
      | none =>
          have hstep : s.step C f (.sign i challenge confirmation) = (.none, s) := by
            simp [Machine.step, hi]
          rw [taken, hstep]
          refine h.quiet (.inl rfl) ⟨?_, ?_⟩
          · rintro signer ⟨⟩
          · rintro result ⟨⟩
      | some p =>
          have hmem := List.mem_of_getElem? hi
          have hstep : s.step C f (.sign i challenge confirmation) =
              (.signed (p.sign C challenge confirmation).1,
                { s with providers := s.providers.set i (p.sign C challenge confirmation).2 }) := by
            simp [Machine.step, hi]
          rw [taken, hstep]
          cases hstored : storedKey s.entry with
          | none =>
              rw [(h.of_none hstored).1] at hmem
              exact absurd hmem List.not_mem_nil
          | some sk =>
              obtain ⟨hproviders, hlog⟩ := h.of_some hstored
              have hmade := hproviders p hmem
              simp only [Kept, hstored, List.forall_mem_append, List.forall_mem_singleton]
              refine ⟨fun q hq => ?_, hlog, shows_sign hE hjson horigin hmade⟩
              rcases List.mem_or_eq_of_mem_set hq with hq | rfl
              · exact hproviders q hq
              · exact hmade.sign challenge confirmation
  | restart =>
      cases hstored : storedKey s.entry with
      | none =>
          obtain ⟨-, hlog⟩ := h.of_none hstored
          simp only [Kept, Machine.step, hstored, List.forall_mem_append, List.forall_mem_singleton]
          exact ⟨trivial, hlog, by rintro signer ⟨⟩, by rintro result ⟨⟩⟩
      | some sk =>
          obtain ⟨-, hlog⟩ := h.of_some hstored
          simp only [Kept, Machine.step, hstored, List.forall_mem_append, List.forall_mem_singleton]
          refine ⟨fun p hp => absurd hp List.not_mem_nil, hlog, Quiet.shows ⟨?_, ?_⟩⟩
          · rintro signer ⟨⟩
          · rintro result ⟨⟩

end Machine

-- However signers are made and reopened with either style, whatever the key store fails at and
-- however often the process starts again: there is one key that every signer has, all they sign passes
-- the check under this key, and what a passkey signed passes it for the one challenge it was asked for.
theorem signers_verify {C : Crates} (hE : C.ecdsa.Correct) (hjson : ReadsPlainObjects C.fromStr)
    (f : SoftwareSignerFactory) (hrpId : ∀ c ∈ f.rpId.toList, isPlain c = true) (entry : Option Bytes)
    (calls : List SignerCall) :
    ∃ key, ∀ x ∈ trace (Machine.step C f) calls ⟨entry, []⟩, Shows C key x := by
  have horigin : ∀ c ∈ f.origin.toList, isPlain c = true := by
    have hfront : ∀ c ∈ "https://".toList, isPlain c = true := List.all_eq_true.mp (by decide +kernel)
    rw [SoftwareSignerFactory.origin, String.toList_append]
    exact List.forall_mem_append.mpr ⟨hfront, hrpId⟩
  have hstart : Kept C f [] ⟨entry, []⟩ := by
    cases hstored : storedKey entry with
    | none => simp [Kept, hstored]
    | some sk => simp [Kept, hstored]
  have hkept : Kept C f (trace (Machine.step C f) calls ⟨entry, []⟩)
      (final (Machine.step C f) calls ⟨entry, []⟩) :=
    trace_induct hstart (fun log s call h => h.step hE hjson horigin call) calls
  cases hstored : storedKey (final (Machine.step C f) calls ⟨entry, []⟩).entry with
  | some sk => exact ⟨publicKeyOf C sk, (hkept.of_some hstored).2⟩
  | none =>
      refine ⟨⟨.replicate 32 0, .replicate 32 0⟩, fun x hx => ?_⟩
      exact ((hkept.of_none hstored).2 x hx).shows

namespace Reference

def crates : Crates where
  ecdsa := .atOne
  keccak256 := Core.Reference.digest
  sha256 := Core.Reference.digest
  fromStr := readPlainObject

-- The key whose public key is the base point.
def secret : SigningKey := ⟨⟨beBytes 32 1, length_beBytes ..⟩, by decide +kernel⟩

-- The first write is lost, with what it stored left behind, and the next start goes on with that.
def used : List SignerCall :=
  [.create .biometric true secret ⟨true, false, true⟩, .create .thisDevice true secret ⟨true, true, true⟩,
    .restart, .create .biometric true secret ⟨true, true, true⟩,
    .sign 0 ⟨.replicate 32 5, .readOnly, .replicate 32 6⟩ .osUserVerification]

theorem used_verify : crates.ecdsa.Correct ∧ ReadsPlainObjects crates.fromStr ∧
    ∃ key, ∀ x ∈ trace (Machine.step crates ⟨"zbacs.local"⟩) used ⟨none, []⟩, Shows crates key x := by
  have hrpId : ∀ c ∈ "zbacs.local".toList, isPlain c = true := List.all_eq_true.mp (by decide +kernel)
  exact ⟨Ecdsa.atOne_correct, readPlainObject_reads,
    signers_verify Ecdsa.atOne_correct readPlainObject_reads ⟨"zbacs.local"⟩ hrpId none used⟩

end Reference

end Zbacs.Auth.WebAuthn.Software
