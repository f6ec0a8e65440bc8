import Mathlib.Data.Finset.Card
import Zbacs.Agent.Setup
import Zbacs.Lib.Trace

namespace Zbacs.Auth

open Zbacs.Lib
open Zbacs.Core (Permission utf8)
open Zbacs.Agent (Confirmation)
open Zbacs.Agent.Setup (SignerKind)

-- One-time authentication keys: two devices hold one seed, and every approval has a key of its own
-- that is derived from it. HMAC-SHA-256 is an argument, of its key and its message.

abbrev KeyId := FixedBytes 32

inductive AuthError where
  | confirmationUnavailable (kind : SignerKind) (confirmation : Confirmation)
  | malformed (why : String)
  | invalidSignature
deriving DecidableEq

structure ApprovalContext where
  permission : Permission
  fileId : FixedBytes 32
deriving DecidableEq

structure ApprovalChallenge where
  digest : FixedBytes 32
  context : ApprovalContext
deriving DecidableEq

inductive ApprovalAssertion where
  | webAuthn (authenticatorData : Bytes) (clientDataJson : String) (r s : FixedBytes 32)
  | p256Raw (keyId : KeyId) (r s : FixedBytes 32)
  | bsa (token : Bytes)
  | otak (keyId : KeyId) (mac : FixedBytes 32)
deriving DecidableEq

def otakDeriveDomain : Bytes := utf8 "ZBACS-OTAK-v1/derive"

def otakIdDomain : Bytes := utf8 "ZBACS-OTAK-v1/id"

def otakMacDomain : Bytes := utf8 "ZBACS-OTAK-v1/mac"

structure OtakSeed where
  expose : FixedBytes 32
deriving DecidableEq

def OtakSeed.fromBytes (b : Bytes) : Except AuthError OtakSeed := match FixedBytes.ofBytes? 32 b with
  | some arr => .ok ⟨arr⟩
  | none => .error (.malformed "OTAK seed must be 32 bytes")

-- A seed comes back from the keychain as it was stored.
theorem OtakSeed.fromBytes_expose (seed : OtakSeed) : fromBytes seed.expose.bytes = .ok seed := by
  rw [fromBytes, FixedBytes.ofBytes?_bytes]

-- The digests that were used. The set is behind a mutex and a call goes to it once, so the calls of
-- several threads are calls one after another.
structure SpentKeys where
  digests : Finset (FixedBytes 32)
deriving DecidableEq

namespace SpentKeys

def new : SpentKeys := ⟨∅⟩

-- Whether the digest was not spent before.
def spend (keys : SpentKeys) (digest : FixedBytes 32) : Bool × SpentKeys :=
  (digest ∉ keys.digests, ⟨insert digest keys.digests⟩)

def isSpent (keys : SpentKeys) (digest : FixedBytes 32) : Bool := digest ∈ keys.digests

def len (keys : SpentKeys) : Nat := keys.digests.card

theorem spend_of_mem {keys : SpentKeys} {digest : FixedBytes 32} (h : digest ∈ keys.digests) :
    keys.spend digest = (false, keys) := by
  rw [spend, Finset.insert_eq_of_mem h, decide_eq_false (not_not_intro h)]

theorem spend_of_notMem {keys : SpentKeys} {digest : FixedBytes 32} (h : digest ∉ keys.digests) :
    keys.spend digest = (true, ⟨insert digest keys.digests⟩) := by
  rw [spend, decide_eq_true h]

end SpentKeys

section Hmac

variable (hmacSha256 : Bytes → Bytes → FixedBytes 32)

def OtakSeed.identity (seed : OtakSeed) : KeyId := hmacSha256 otakIdDomain seed.expose.bytes

def OtakSeed.oneTimeKey (seed : OtakSeed) (digest : FixedBytes 32) : FixedBytes 32 :=
  hmacSha256 otakDeriveDomain (seed.expose.bytes ++ digest.bytes)

def assertionMac (oneTime digest : FixedBytes 32) : FixedBytes 32 :=
  hmacSha256 oneTime.bytes (otakMacDomain ++ digest.bytes)

structure OtakProvider where
  seed : OtakSeed
  spent : SpentKeys
deriving DecidableEq

namespace OtakProvider

def new (seed : OtakSeed) : OtakProvider := ⟨seed, .new⟩

def identity (p : OtakProvider) : KeyId := p.seed.identity hmacSha256

def spentCount (p : OtakProvider) : Nat := p.spent.len

-- The Agent's own prompt is the confirmation; one by the operating system is refused before the key
-- is touched.
def sign (p : OtakProvider) (challenge : ApprovalChallenge) (confirmation : Confirmation) :
    Except AuthError ApprovalAssertion × OtakProvider :=
  if confirmation = .osUserVerification then
    (.error (.confirmationUnavailable .otak confirmation), p)
  else match p.spent.spend challenge.digest with
    | (false, spent) => (.error (.malformed "this one-time key was already used"), { p with spent })
    | (true, spent) =>
      let oneTime := p.seed.oneTimeKey hmacSha256 challenge.digest
      (.ok (.otak (p.identity hmacSha256) (assertionMac hmacSha256 oneTime challenge.digest)),
        { p with spent })

end OtakProvider

structure OtakVerifier where
  seed : OtakSeed
  spent : SpentKeys
deriving DecidableEq

namespace OtakVerifier

def new (seed : OtakSeed) : OtakVerifier := ⟨seed, .new⟩

-- The key is spent last, when all else was found right.
def verify (v : OtakVerifier) (digest : FixedBytes 32) (assertion : ApprovalAssertion) :
    Except AuthError Unit × OtakVerifier := match assertion with
  | .otak keyId mac =>
    if keyId ≠ v.seed.identity hmacSha256 then (.error .invalidSignature, v)
    else if assertionMac hmacSha256 (v.seed.oneTimeKey hmacSha256 digest) digest ≠ mac then
      (.error .invalidSignature, v)
    else match v.spent.spend digest with
      | (false, spent) => (.error (.malformed "this one-time key was already used"), { v with spent })
      | (true, spent) => (.ok (), { v with spent })
  | _ => (.error (.malformed "not an OTAK assertion"), v)

def isSpent (v : OtakVerifier) (digest : FixedBytes 32) : Bool := v.spent.isSpent digest

end OtakVerifier

-- One device that signs and one that verifies, each with its own seed and its own spent keys. What is
-- shown to the second need not come from the first.
structure Otak where
  provider : OtakProvider
  verifier : OtakVerifier
deriving DecidableEq

inductive OtakCall where
  | sign (challenge : ApprovalChallenge) (confirmation : Confirmation)
  | verify (digest : FixedBytes 32) (assertion : ApprovalAssertion)
deriving DecidableEq

inductive OtakAnswer where
  | signed (result : Except AuthError ApprovalAssertion)
  | verified (result : Except AuthError Unit)
deriving DecidableEq

def OtakCall.digest : OtakCall → FixedBytes 32
  | sign challenge _ => challenge.digest
  | verify digest _ => digest

abbrev OtakTaken := Taken Otak OtakCall OtakAnswer

namespace Otak

def start (signing verifying : OtakSeed) : Otak := ⟨.new signing, .new verifying⟩

def step (s : Otak) : OtakCall → OtakAnswer × Otak
  | .sign challenge confirmation =>
    let (result, provider) := s.provider.sign hmacSha256 challenge confirmation
    (.signed result, { s with provider })
  | .verify digest assertion =>
    let (result, verifier) := s.verifier.verify hmacSha256 digest assertion
    (.verified result, { s with verifier })

end Otak

end Hmac

end Zbacs.Auth
