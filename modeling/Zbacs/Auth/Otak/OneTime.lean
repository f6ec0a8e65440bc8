import Zbacs.Auth.Otak
import Zbacs.Core.Reference
import Zbacs.Lib.OneTime

namespace Zbacs.Auth

open Zbacs.Lib
open Zbacs.Agent (Confirmation)

-- A one-time key is used once by the device that signs, and once by the device that verifies.

variable {hmacSha256 : Bytes → Bytes → FixedBytes 32}

section Assertion

variable (hmacSha256)

def OtakSeed.mac (seed : OtakSeed) (digest : FixedBytes 32) : FixedBytes 32 :=
  assertionMac hmacSha256 (seed.oneTimeKey hmacSha256 digest) digest

-- The one assertion that a seed yields for a digest.
def OtakSeed.assertion (seed : OtakSeed) (digest : FixedBytes 32) : ApprovalAssertion :=
  .otak (seed.identity hmacSha256) (seed.mac hmacSha256 digest)

-- What is hashed for the MACs of these digests under these seeds: for each a derivation, and the digest
-- under the key that it gives.
def hashed (seeds : List OtakSeed) (digests : List (FixedBytes 32)) : List (Bytes × Bytes) :=
  seeds.flatMap fun seed => digests.flatMap fun digest =>
    [(otakDeriveDomain, seed.expose.bytes ++ digest.bytes),
      ((seed.oneTimeKey hmacSha256 digest).bytes, otakMacDomain ++ digest.bytes)]

def CollisionFree (queries : List (Bytes × Bytes)) : Prop :=
  ∀ q ∈ queries, ∀ q' ∈ queries, hmacSha256 q.1 q.2 = hmacSha256 q'.1 q'.2 → q = q'

end Assertion

section Hashed

variable {seeds : List OtakSeed} {digests : List (FixedBytes 32)} {seed seed' : OtakSeed}
  {digest digest' : FixedBytes 32}

theorem hashed_of_mem (hmacSha256 : Bytes → Bytes → FixedBytes 32) (hseed : seed ∈ seeds)
    (hdigest : digest ∈ digests) :
    (otakDeriveDomain, seed.expose.bytes ++ digest.bytes) ∈ hashed hmacSha256 seeds digests ∧
      ((seed.oneTimeKey hmacSha256 digest).bytes, otakMacDomain ++ digest.bytes) ∈
        hashed hmacSha256 seeds digests := by
  have hsub : ∀ q ∈ [(otakDeriveDomain, seed.expose.bytes ++ digest.bytes),
      ((seed.oneTimeKey hmacSha256 digest).bytes, otakMacDomain ++ digest.bytes)],
      q ∈ hashed hmacSha256 seeds digests := fun q hq =>
    List.mem_flatMap.mpr ⟨seed, hseed, List.mem_flatMap.mpr ⟨digest, hdigest, hq⟩⟩
  exact ⟨hsub _ List.mem_cons_self, hsub _ (List.mem_cons_of_mem _ List.mem_cons_self)⟩

-- A MAC tells the digest and the key, and the key tells the seed.
theorem mac_inj (hfree : CollisionFree hmacSha256 (hashed hmacSha256 seeds digests))
    (hseed : seed ∈ seeds) (hseed' : seed' ∈ seeds) (hdigest : digest ∈ digests)
    (hdigest' : digest' ∈ digests)
    (h : seed.mac hmacSha256 digest = seed'.mac hmacSha256 digest') : seed = seed' ∧ digest = digest' := by
  obtain ⟨hderive, hmac⟩ := hashed_of_mem hmacSha256 hseed hdigest
  obtain ⟨hderive', hmac'⟩ := hashed_of_mem hmacSha256 hseed' hdigest'
  obtain ⟨hkey, hmessage⟩ := Prod.mk.inj (hfree _ hmac _ hmac' h)
  obtain rfl := FixedBytes.ext (List.append_cancel_left hmessage)
  obtain ⟨-, hderived⟩ := Prod.mk.inj (hfree _ hderive _ hderive' (FixedBytes.ext hkey))
  have hexpose := FixedBytes.ext (List.append_cancel_right hderived)
  exact ⟨congrArg OtakSeed.mk hexpose, rfl⟩

end Hashed

section Step

variable {s : Otak} {call : OtakCall} {digest : FixedBytes 32} {assertion : ApprovalAssertion}

def OtakAnswer.refused : OtakAnswer → Bool
  | signed (.error _) | verified (.error _) => true
  | signed (.ok _) | verified (.ok _) => false

-- The digest that the first device is asked to sign, by its own prompt.
def OtakCall.signs : OtakCall → Option (FixedBytes 32)
  | sign challenge .notRequired => some challenge.digest
  | sign _ .osUserVerification | verify _ _ => none

-- The digest that the second device is shown the seed's own assertion for.
def OtakCall.presents (hmacSha256 : Bytes → Bytes → FixedBytes 32) (seed : OtakSeed) :
    OtakCall → Option (FixedBytes 32)
  | verify digest assertion => if assertion = seed.assertion hmacSha256 digest then some digest else none
  | sign _ _ => none

def signedDigest : OtakCall → OtakAnswer → Option (FixedBytes 32)
  | .sign challenge _, .signed (.ok _) => some challenge.digest
  | _, _ => none

def acceptedDigest : OtakCall → OtakAnswer → Option (FixedBytes 32)
  | .verify digest _, .verified (.ok _) => some digest
  | _, _ => none

theorem verify_of_ne {v : OtakVerifier} (h : assertion ≠ v.seed.assertion hmacSha256 digest) :
    ∃ e, v.verify hmacSha256 digest assertion = (.error e, v) := by
  cases assertion with
  | webAuthn | p256Raw | bsa => exact ⟨_, rfl⟩
  | otak keyId mac =>
      by_cases hid : keyId = v.seed.identity hmacSha256
      · have hmac : assertionMac hmacSha256 (v.seed.oneTimeKey hmacSha256 digest) digest ≠ mac := by
          rintro rfl
          exact h (by rw [hid]; rfl)
        refine ⟨.invalidSignature, ?_⟩
        rw [OtakVerifier.verify, if_neg (not_not_intro hid), if_pos hmac]
      · refine ⟨.invalidSignature, ?_⟩
        rw [OtakVerifier.verify, if_pos hid]

theorem verify_assertion (v : OtakVerifier) (digest : FixedBytes 32) :
    v.verify hmacSha256 digest (v.seed.assertion hmacSha256 digest) =
      if digest ∈ v.spent.digests then (.error (.malformed "this one-time key was already used"), v)
      else (.ok (), { v with spent := ⟨insert digest v.spent.digests⟩ }) := by
  rw [OtakSeed.assertion, OtakSeed.mac, OtakVerifier.verify, if_neg (not_not_intro rfl),
    if_neg (not_not_intro rfl)]
  by_cases hspent : digest ∈ v.spent.digests
  · rw [SpentKeys.spend_of_mem hspent, if_pos hspent]
  · rw [SpentKeys.spend_of_notMem hspent, if_neg hspent]

theorem sign_notRequired (p : OtakProvider) (challenge : ApprovalChallenge) :
    p.sign hmacSha256 challenge .notRequired =
      if challenge.digest ∈ p.spent.digests then
        (.error (.malformed "this one-time key was already used"), p)
      else (.ok (p.seed.assertion hmacSha256 challenge.digest),
        { p with spent := ⟨insert challenge.digest p.spent.digests⟩ }) := by
  rw [OtakProvider.sign, if_neg (by decide)]
  by_cases hspent : challenge.digest ∈ p.spent.digests
  · rw [SpentKeys.spend_of_mem hspent, if_pos hspent]
  · rw [SpentKeys.spend_of_notMem hspent, if_neg hspent]
    rfl

-- The key of a digest is spent by the one that signs, or by the one that verifies.
def Otak.spendSigning (s : Otak) (digest : FixedBytes 32) : Otak :=
  { s with provider := { s.provider with spent := ⟨insert digest s.provider.spent.digests⟩ } }

def Otak.spendVerifying (s : Otak) (digest : FixedBytes 32) : Otak :=
  { s with verifier := { s.verifier with spent := ⟨insert digest s.verifier.spent.digests⟩ } }

-- A call signs an unspent digest, or accepts one with its own assertion, or it is refused and changes
-- nothing.
theorem step_cases (hmacSha256 : Bytes → Bytes → FixedBytes 32) (s : Otak) (call : OtakCall) :
    (∃ challenge, call = .sign challenge .notRequired ∧ challenge.digest ∉ s.provider.spent.digests ∧
      s.step hmacSha256 call = (.signed (.ok (s.provider.seed.assertion hmacSha256 challenge.digest)),
        s.spendSigning challenge.digest)) ∨
    (∃ digest, call = .verify digest (s.verifier.seed.assertion hmacSha256 digest) ∧
      digest ∉ s.verifier.spent.digests ∧
      s.step hmacSha256 call = (.verified (.ok ()), s.spendVerifying digest)) ∨
    ((s.step hmacSha256 call).1.refused ∧ (s.step hmacSha256 call).2 = s ∧
      (∀ digest, call.signs = some digest → digest ∈ s.provider.spent.digests) ∧
      ∀ digest, call.presents hmacSha256 s.verifier.seed = some digest →
        digest ∈ s.verifier.spent.digests) := by
  cases call with
  | sign challenge confirmation =>
      cases confirmation with
      | osUserVerification =>
          exact .inr (.inr ⟨rfl, rfl, fun _ h => (nomatch h), fun _ h => (nomatch h)⟩)
      | notRequired =>
          by_cases hspent : challenge.digest ∈ s.provider.spent.digests
          · refine .inr (.inr ?_)
            rw [Otak.step, sign_notRequired, if_pos hspent]
            refine ⟨rfl, rfl, ?_, fun _ h => (nomatch h)⟩
            rintro _ ⟨⟩
            exact hspent
          · refine .inl ⟨challenge, rfl, hspent, ?_⟩
            rw [Otak.step, sign_notRequired, if_neg hspent]
            rfl
  | verify digest assertion =>
      by_cases hown : assertion = s.verifier.seed.assertion hmacSha256 digest
      · subst hown
        by_cases hspent : digest ∈ s.verifier.spent.digests
        · refine .inr (.inr ?_)
          rw [Otak.step, verify_assertion, if_pos hspent, OtakCall.presents, if_pos rfl]
          refine ⟨rfl, rfl, fun _ h => (nomatch h), ?_⟩
          rintro _ ⟨⟩
          exact hspent
        · refine .inr (.inl ⟨digest, rfl, hspent, ?_⟩)
          rw [Otak.step, verify_assertion, if_neg hspent]
          rfl
      · obtain ⟨e, hverify⟩ := verify_of_ne hown
        refine .inr (.inr ?_)
        rw [Otak.step, hverify, OtakCall.presents, if_neg hown]
        exact ⟨rfl, rfl, fun _ h => (nomatch h), fun _ h => (nomatch h)⟩

theorem no_digest_of_refused {answer : OtakAnswer} (h : answer.refused) :
    signedDigest call answer = none ∧ acceptedDigest call answer = none := by
  rcases answer with (e | a) | (e | u)
  · cases call <;> exact ⟨rfl, rfl⟩
  · cases h
  · cases call <;> exact ⟨rfl, rfl⟩
  · cases h

-- What is accepted is the seed's own assertion, and what is signed is too.
theorem accepted_eq (h : (s.step hmacSha256 (.verify digest assertion)).1 = .verified (.ok ())) :
    assertion = s.verifier.seed.assertion hmacSha256 digest := by
  rcases step_cases hmacSha256 s (.verify digest assertion) with
    ⟨_, hcall, -⟩ | ⟨_, hcall, -⟩ | ⟨hrefused, -⟩
  · cases hcall
  · obtain ⟨rfl, rfl⟩ := OtakCall.verify.inj hcall
    rfl
  · rw [h] at hrefused
    cases hrefused

theorem signed_eq {challenge : ApprovalChallenge} {confirmation : Confirmation}
    (h : (s.step hmacSha256 (.sign challenge confirmation)).1 = .signed (.ok assertion)) :
    assertion = s.provider.seed.assertion hmacSha256 challenge.digest := by
  rcases step_cases hmacSha256 s (.sign challenge confirmation) with
    ⟨_, hcall, -, hstep⟩ | ⟨_, hcall, -⟩ | ⟨hrefused, -⟩
  · obtain ⟨rfl, rfl⟩ := OtakCall.sign.inj hcall
    rw [hstep] at h
    cases h
    rfl
  · cases hcall
  · rw [h] at hrefused
    cases hrefused

theorem after_of_refused {answer : OtakAnswer} {after : Otak}
    (h : s.step hmacSha256 call = (answer, after)) (hrefused : answer.refused) : after = s := by
  rcases step_cases hmacSha256 s call with ⟨_, -, -, hstep⟩ | ⟨_, -, -, hstep⟩ | ⟨-, hsame, -⟩
  · rw [h] at hstep
    cases hstep
    cases hrefused
  · rw [h] at hstep
    cases hstep
    cases hrefused
  · rwa [h] at hsame

theorem answer_verify (hmacSha256 : Bytes → Bytes → FixedBytes 32) (s : Otak) (digest : FixedBytes 32) :
    (s.step hmacSha256 (.verify digest (s.verifier.seed.assertion hmacSha256 digest))).1 =
      .verified (.ok ()) ↔ digest ∉ s.verifier.spent.digests := by
  rw [Otak.step, verify_assertion]
  by_cases hspent : digest ∈ s.verifier.spent.digests
  · rw [if_pos hspent]
    exact iff_of_false (by simp) (not_not_intro hspent)
  · rw [if_neg hspent]
    exact iff_of_true rfl hspent

theorem answer_sign (hmacSha256 : Bytes → Bytes → FixedBytes 32) (s : Otak)
    (challenge : ApprovalChallenge) :
    (s.step hmacSha256 (.sign challenge .notRequired)).1 =
      .signed (.ok (s.provider.seed.assertion hmacSha256 challenge.digest)) ↔
        challenge.digest ∉ s.provider.spent.digests := by
  rw [Otak.step, sign_notRequired]
  by_cases hspent : challenge.digest ∈ s.provider.spent.digests
  · rw [if_pos hspent]
    exact iff_of_false (by simp) (not_not_intro hspent)
  · rw [if_neg hspent]
    exact iff_of_true rfl hspent

end Step

section Runs

variable {signing verifying : OtakSeed}

structure Enrolled (signing verifying : OtakSeed) (s : Otak) : Prop where
  signing_eq : s.provider.seed = signing
  verifying_eq : s.verifier.seed = verifying

theorem enrolled_start : Enrolled signing verifying (.start signing verifying) := ⟨rfl, rfl⟩

theorem Enrolled.step {s : Otak} (h : Enrolled signing verifying s) (call : OtakCall) :
    Enrolled signing verifying (s.step hmacSha256 call).2 := by
  rcases step_cases hmacSha256 s call with ⟨_, -, -, hstep⟩ | ⟨_, -, -, hstep⟩ | ⟨-, hsame, -⟩
  · rw [hstep]
    exact ⟨h.signing_eq, h.verifying_eq⟩
  · rw [hstep]
    exact ⟨h.signing_eq, h.verifying_eq⟩
  · rwa [hsame]

theorem oneTime_sign (hmacSha256 : Bytes → Bytes → FixedBytes 32) (signing verifying : OtakSeed) :
    OneTime (Otak.step hmacSha256) (Enrolled signing verifying)
      (fun s => {digest | digest ∈ s.provider.spent.digests}) OtakCall.signs signedDigest where
  inv_step h := h.step _
  mem_spent_step {s call k} h := by
    rcases step_cases hmacSha256 s call with ⟨c, rfl, -, hstep⟩ | ⟨d, rfl, -, hstep⟩ | ⟨-, hsame, hspent, -⟩
    · rw [hstep]
      simp only [Otak.spendSigning, OtakCall.signs, Set.mem_ofPred_eq, Finset.mem_insert, Option.some.injEq]
      rw [or_comm, eq_comm]
    · rw [hstep]
      simp [Otak.spendVerifying, OtakCall.signs]
    · rw [hsame]
      exact (or_iff_left_of_imp (hspent k)).symm
  granted_iff {s call k} h := by
    rcases step_cases hmacSha256 s call with
      ⟨c, rfl, hfresh, hstep⟩ | ⟨d, rfl, -, hstep⟩ | ⟨hrefused, -, hspent, -⟩
    · rw [hstep]
      simp only [signedDigest, OtakCall.signs, Option.some.injEq, Set.mem_ofPred_eq]
      exact (and_iff_left_of_imp fun hk => hk ▸ hfresh).symm
    · rw [hstep]
      simp [signedDigest, OtakCall.signs]
    · rw [(no_digest_of_refused hrefused).1]
      exact iff_of_false (by simp) fun hk => hk.2 (hspent k hk.1)

theorem oneTime_verify (hmacSha256 : Bytes → Bytes → FixedBytes 32) (signing verifying : OtakSeed) :
    OneTime (Otak.step hmacSha256) (Enrolled signing verifying)
      (fun s => {digest | digest ∈ s.verifier.spent.digests}) (OtakCall.presents hmacSha256 verifying)
      acceptedDigest where
  inv_step h := h.step _
  mem_spent_step {s call k} h := by
    rcases step_cases hmacSha256 s call with ⟨c, rfl, -, hstep⟩ | ⟨d, rfl, -, hstep⟩ | ⟨-, hsame, -, hspent⟩
    · rw [hstep]
      simp [Otak.spendSigning, OtakCall.presents]
    · rw [hstep, h.verifying_eq, OtakCall.presents, if_pos rfl]
      simp only [Otak.spendVerifying, Set.mem_ofPred_eq, Finset.mem_insert, Option.some.injEq]
      rw [or_comm, eq_comm]
    · rw [hsame]
      rw [h.verifying_eq] at hspent
      exact (or_iff_left_of_imp (hspent k)).symm
  granted_iff {s call k} h := by
    rcases step_cases hmacSha256 s call with
      ⟨c, rfl, -, hstep⟩ | ⟨d, rfl, hfresh, hstep⟩ | ⟨hrefused, -, -, hspent⟩
    · rw [hstep]
      simp [acceptedDigest, OtakCall.presents]
    · rw [hstep, h.verifying_eq, OtakCall.presents, if_pos rfl]
      simp only [acceptedDigest, Option.some.injEq, Set.mem_ofPred_eq]
      exact (and_iff_left_of_imp fun hk => hk ▸ hfresh).symm
    · rw [(no_digest_of_refused hrefused).2]
      rw [h.verifying_eq] at hspent
      exact iff_of_false (by simp) fun hk => hk.2 (hspent k hk.1)

variable {calls : List OtakCall} {x : OtakTaken}

theorem call_of_mem (h : x ∈ trace (Otak.step hmacSha256) calls (.start signing verifying)) :
    Enrolled signing verifying x.before ∧ x.before.step hmacSha256 x.input = (x.output, x.after) ∧
      x.input.digest ∈ calls.map OtakCall.digest := by
  obtain ⟨before, call, after, rfl, rfl⟩ := exists_of_mem_trace h
  refine ⟨(oneTime_sign hmacSha256 signing verifying).inv_final enrolled_start before, rfl, ?_⟩
  exact List.mem_map_of_mem (List.mem_append_right _ List.mem_cons_self)

theorem not_spent_start (signing verifying : OtakSeed) (digest : FixedBytes 32) :
    digest ∉ (Otak.start signing verifying).provider.spent.digests ∧
      digest ∉ (Otak.start signing verifying).verifier.spent.digests :=
  ⟨Finset.notMem_empty digest, Finset.notMem_empty digest⟩

-- An assertion put together from what the first device signed is accepted for what it was signed for.
theorem accepted_of_signed {y : OtakTaken} {digest : FixedBytes 32} {challenge : ApprovalChallenge}
    {confirmation : Confirmation} {keyId keyId' : KeyId} {mac : FixedBytes 32}
    (hfree : CollisionFree hmacSha256
      (hashed hmacSha256 [signing, verifying] (calls.map OtakCall.digest)))
    (hx : x ∈ trace (Otak.step hmacSha256) calls (.start signing verifying))
    (hinput : x.input = .verify digest (verifying.assertion hmacSha256 digest))
    (hy : y ∈ trace (Otak.step hmacSha256) calls (.start signing verifying))
    (hsign : y.input = .sign challenge confirmation) (hsigned : y.output = .signed (.ok (.otak keyId mac)))
    (hmac : verifying.assertion hmacSha256 digest = .otak keyId' mac) :
    signing = verifying ∧ challenge.digest = digest := by
  obtain ⟨-, -, hdigest⟩ := call_of_mem hx
  obtain ⟨henrolled, hstep, hdigest'⟩ := call_of_mem hy
  rw [hinput] at hdigest
  rw [hsign] at hstep hdigest'
  have hown := signed_eq ((congrArg Prod.fst hstep).trans hsigned)
  rw [henrolled.signing_eq] at hown
  obtain ⟨-, hsigning⟩ := ApprovalAssertion.otak.inj hown
  obtain ⟨-, hverifying⟩ := ApprovalAssertion.otak.inj hmac
  exact mac_inj hfree (by simp) (by simp) hdigest' hdigest (hsigning.symm.trans hverifying.symm)

theorem presents_eq_some {call : OtakCall} {digest : FixedBytes 32} :
    call.presents hmacSha256 verifying = some digest ↔
      call = .verify digest (verifying.assertion hmacSha256 digest) := by
  cases call with
  | sign challenge confirmation => exact iff_of_false (fun h => (nomatch h)) fun h => (nomatch h)
  | verify digest' assertion =>
      rw [OtakCall.presents]
      split_ifs with hown
      · subst hown
        constructor
        · rintro ⟨⟩
          rfl
        · rintro ⟨⟩
          rfl
      · refine iff_of_false (fun h => (nomatch h)) ?_
        rintro ⟨⟩
        exact hown rfl

section First

variable {pre post : List OtakTaken}
  (h : trace (Otak.step hmacSha256) calls (.start signing verifying) = pre ++ x :: post)

include h

-- The verifier's own assertion is accepted the first time it is shown.
theorem accepted_first {digest : FixedBytes 32}
    (hinput : x.input = .verify digest (verifying.assertion hmacSha256 digest)) :
    (x.output = .verified (.ok ()) ↔ x.before.verifier.isSpent digest = false) ∧
      (x.before.verifier.isSpent digest ↔ ∃ y ∈ pre, y.input = x.input) := by
  have hspent := (oneTime_verify hmacSha256 signing verifying).mem_spent_before (k := digest) enrolled_start
    (fun k => (not_spent_start signing verifying k).2) h
  simp only [presents_eq_some] at hspent
  obtain ⟨henrolled, hstep, -⟩ := call_of_mem (h ▸ List.mem_append_right pre List.mem_cons_self)
  have hanswer := answer_verify hmacSha256 x.before digest
  rw [henrolled.verifying_eq, ← hinput, hstep] at hanswer
  refine ⟨hanswer.trans decide_eq_false_iff_not.symm, ?_⟩
  rw [hinput]
  exact decide_eq_true_iff.trans hspent

-- A digest is signed the first time that the device's own prompt asks for it.
theorem signed_first {challenge : ApprovalChallenge} (hinput : x.input = .sign challenge .notRequired) :
    x.output = .signed (.ok (signing.assertion hmacSha256 challenge.digest)) ↔
      ∀ y ∈ pre, y.input.signs ≠ some challenge.digest := by
  have hspent := (oneTime_sign hmacSha256 signing verifying).mem_spent_before (k := challenge.digest)
    enrolled_start (fun k => (not_spent_start signing verifying k).1) h
  rw [Set.mem_ofPred_eq] at hspent
  obtain ⟨henrolled, hstep, -⟩ := call_of_mem (h ▸ List.mem_append_right pre List.mem_cons_self)
  have hanswer := answer_sign hmacSha256 x.before challenge
  rw [henrolled.signing_eq, ← hinput, hstep] at hanswer
  refine hanswer.trans ?_
  simp only [hspent, not_exists, not_and, ne_eq]

end First

-- With a keyed hash that had no collision in the run: a digest is signed once, and accepted once, with
-- nothing but the assertion of the verifier's seed, and no MAC signed for another digest or under
-- another seed; what is refused changes nothing, so that assertion is accepted the first time it is
-- shown, and a digest is signed the first time the device's own prompt asks for it.
theorem otak_one_time (signing verifying : OtakSeed) (calls : List OtakCall)
    (hfree : CollisionFree hmacSha256
      (hashed hmacSha256 [signing, verifying] (calls.map OtakCall.digest))) :
    let log := trace (Otak.step hmacSha256) calls (.start signing verifying)
    (OneTime.grants signedDigest log).Nodup ∧ (OneTime.grants acceptedDigest log).Nodup ∧
    (∀ x ∈ log, ∀ digest assertion, x.input = .verify digest assertion → x.output = .verified (.ok ()) →
      assertion = verifying.assertion hmacSha256 digest ∧
      ∀ y ∈ log, ∀ challenge confirmation keyId keyId' mac, y.input = .sign challenge confirmation →
        y.output = .signed (.ok (.otak keyId mac)) → assertion = .otak keyId' mac →
        signing = verifying ∧ challenge.digest = digest) ∧
    (∀ x ∈ log, (x.output.refused → x.after = x.before) ∧
      ∀ challenge, x.input = .sign challenge .osUserVerification → x.output.refused) ∧
    (∀ pre x post digest, log = pre ++ x :: post →
      x.input = .verify digest (verifying.assertion hmacSha256 digest) →
      (x.output = .verified (.ok ()) ↔ x.before.verifier.isSpent digest = false) ∧
      (x.before.verifier.isSpent digest ↔ ∃ y ∈ pre, y.input = x.input)) ∧
    ∀ pre x post challenge, log = pre ++ x :: post → x.input = .sign challenge .notRequired →
      (x.output = .signed (.ok (signing.assertion hmacSha256 challenge.digest)) ↔
        ∀ y ∈ pre, y.input.signs ≠ some challenge.digest) := by
  have hsigned := (oneTime_sign hmacSha256 signing verifying).granted_once enrolled_start
    (fun k => (not_spent_start signing verifying k).1) calls
  have haccepted := (oneTime_verify hmacSha256 signing verifying).granted_once enrolled_start
    (fun k => (not_spent_start signing verifying k).2) calls
  refine ⟨hsigned.1, haccepted.1, ?_, ?_, fun pre x post digest h hinput => accepted_first h hinput,
    fun pre x post challenge h hinput => signed_first h hinput⟩
  · intro x hx digest assertion hinput houtput
    obtain ⟨henrolled, hstep, -⟩ := call_of_mem hx
    rw [hinput] at hstep
    have hown := accepted_eq ((congrArg Prod.fst hstep).trans houtput)
    rw [henrolled.verifying_eq] at hown
    subst hown
    exact ⟨rfl, fun y hy _ _ _ _ _ hsign hsigned hmac =>
      accepted_of_signed hfree hx hinput hy hsign hsigned hmac⟩
  · intro x hx
    obtain ⟨-, hstep, -⟩ := call_of_mem hx
    constructor
    · intro hrefused
      exact after_of_refused hstep hrefused
    · intro challenge hinput
      rw [hinput] at hstep
      have hanswer : _ = x.output := congrArg Prod.fst hstep
      rw [← hanswer]
      rfl

-- A hash with a key, a device that shares its seed with another, and a digest that is shown with a wrong
-- MAC and refused a prompt before it is signed.
def keyed (key msg : Bytes) : FixedBytes 32 := Core.Reference.digest (leBytes 8 key.length ++ key ++ msg)

def sharedSeed : OtakSeed := ⟨.replicate 32 7⟩

def oneChallenge : ApprovalChallenge := ⟨.replicate 32 1, .readOnly, .replicate 32 0⟩

def otherChallenge : ApprovalChallenge := ⟨.replicate 32 2, .readOnly, .replicate 32 0⟩

def attempts : List OtakCall :=
  [.verify oneChallenge.digest (.otak (sharedSeed.identity keyed) (.replicate 32 0)),
    .verify oneChallenge.digest (sharedSeed.assertion keyed otherChallenge.digest),
    .sign oneChallenge .osUserVerification, .sign otherChallenge .notRequired,
    .sign oneChallenge .notRequired]

def presented : OtakCall := .verify oneChallenge.digest (sharedSeed.assertion keyed oneChallenge.digest)

theorem presented_accepted :
    (taken (Otak.step keyed) (final (Otak.step keyed) attempts (.start sharedSeed sharedSeed))
      presented).output = .verified (.ok ()) := by
  have hfree : CollisionFree keyed (hashed keyed [sharedSeed, sharedSeed]
      ((attempts ++ [presented, presented]).map OtakCall.digest)) := by
    unfold CollisionFree
    decide +kernel
  have hother : ∀ call ∈ attempts, call ≠ presented := by decide +kernel
  obtain ⟨-, -, -, -, hfirst, -⟩ := otak_one_time sharedSeed sharedSeed _ hfree
  obtain ⟨haccepted, hspent⟩ := hfirst (trace (Otak.step keyed) attempts (.start sharedSeed sharedSeed))
    (taken (Otak.step keyed) (final (Otak.step keyed) attempts (.start sharedSeed sharedSeed)) presented) _
    oneChallenge.digest (trace_append attempts [presented, presented] _) rfl
  refine haccepted.mpr (eq_false_of_ne_true fun hbefore => ?_)
  obtain ⟨y, hy, hinput⟩ := hspent.mp hbefore
  refine hother y.input ?_ hinput
  rw [← @map_input_trace _ _ _ (Otak.step keyed) attempts (.start sharedSeed sharedSeed)]
  exact List.mem_map_of_mem hy

-- What is spent is what was signed, or accepted.
theorem spentCount_eq (hmacSha256 : Bytes → Bytes → FixedBytes 32) (signing verifying : OtakSeed)
    (calls : List OtakCall) :
    (final (Otak.step hmacSha256) calls (.start signing verifying)).provider.spentCount =
      (OneTime.grants signedDigest
        (trace (Otak.step hmacSha256) calls (.start signing verifying))).length := by
  obtain ⟨hnodup, hspent⟩ := (oneTime_sign hmacSha256 signing verifying).granted_once enrolled_start
    (fun k => (not_spent_start signing verifying k).1) calls
  rw [← List.toFinset_card_of_nodup hnodup]
  refine congrArg Finset.card (Finset.ext fun digest => ?_)
  rw [List.mem_toFinset]
  exact hspent digest

theorem isSpent_iff (hmacSha256 : Bytes → Bytes → FixedBytes 32) (signing verifying : OtakSeed)
    (calls : List OtakCall) (digest : FixedBytes 32) :
    (final (Otak.step hmacSha256) calls (.start signing verifying)).verifier.isSpent digest ↔
      digest ∈ OneTime.grants acceptedDigest
        (trace (Otak.step hmacSha256) calls (.start signing verifying)) := by
  have hspent := ((oneTime_verify hmacSha256 signing verifying).granted_once enrolled_start
    (fun k => (not_spent_start signing verifying k).2) calls).2
  exact decide_eq_true_iff.trans (hspent digest)

-- From the one device to the other: what was signed is accepted the first time it is shown.
theorem signed_accepted {seed : OtakSeed} {pre post : List OtakTaken} {y : OtakTaken}
    {challenge : ApprovalChallenge} {confirmation : Confirmation} {assertion : ApprovalAssertion}
    (h : trace (Otak.step hmacSha256) calls (.start seed seed) = pre ++ x :: post) (hy : y ∈ pre)
    (hsign : y.input = .sign challenge confirmation) (hsigned : y.output = .signed (.ok assertion))
    (hinput : x.input = .verify challenge.digest assertion) (hfirst : ∀ z ∈ pre, z.input ≠ x.input) :
    x.output = .verified (.ok ()) := by
  obtain ⟨henrolled, hstep, -⟩ := call_of_mem (h ▸ List.mem_append_left _ hy)
  rw [hsign] at hstep
  have hown := signed_eq ((congrArg Prod.fst hstep).trans hsigned)
  rw [henrolled.signing_eq] at hown
  rw [hown] at hinput
  obtain ⟨haccepted, hspent⟩ := accepted_first h hinput
  refine haccepted.mpr (eq_false_of_ne_true fun hspentBefore => ?_)
  obtain ⟨z, hz, hsame⟩ := hspent.mp hspentBefore
  exact hfirst z hz hsame

end Runs

end Zbacs.Auth
