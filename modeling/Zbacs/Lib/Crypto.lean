import Zbacs.Lib.Bytes

namespace Zbacs.Lib

-- Authenticated encryption with associated data.
structure Aead (Key Nonce : Type) where
  encrypt : Key → Nonce → (aad msg : Bytes) → Option Bytes
  decrypt : Key → Nonce → (aad ct : Bytes) → Option Bytes

namespace Aead

variable {Key Nonce : Type}

-- Messages up to `limit` bytes encrypt, a ciphertext is `tag` bytes longer than
-- its message, and decryption undoes encryption under the same key, nonce and
-- associated data.
structure Correct (A : Aead Key Nonce) (tag limit : Nat) : Prop where
  encrypts : ∀ k n aad msg, msg.length ≤ limit → ∃ ct, A.encrypt k n aad msg = some ct
  length_ct : ∀ {k n aad msg ct}, A.encrypt k n aad msg = some ct → ct.length = msg.length + tag
  decrypt_encrypt : ∀ {k n aad msg ct},
    A.encrypt k n aad msg = some ct → A.decrypt k n aad ct = some msg

-- Ideal under the key `k`: decryption succeeds exactly on the sealed
-- (nonce, associated data, ciphertext) triples and gives their message back.
def Ideal (A : Aead Key Nonce) (k : Key) (log : Set (Nonce × Bytes × Bytes × Bytes)) : Prop :=
  ∀ n aad ct msg, A.decrypt k n aad ct = some msg ↔ (n, aad, ct, msg) ∈ log

end Aead

-- Public-key encryption of a short secret, with the sender's randomness as an
-- argument.
structure Hpke where
  publicKey : FixedBytes 32 → FixedBytes 32
  sealTo : (pk info aad msg seed : Bytes) → Option (Bytes × Bytes)
  openWith : (enc sk info aad ct : Bytes) → Option Bytes

namespace Hpke

variable (H : Hpke)

-- A public key somebody can hold the secret of.
def ValidKey (pk : Bytes) : Prop := ∃ sk, pk = (H.publicKey sk).bytes

structure Correct (encLen tag : Nat) : Prop where
  seals : ∀ pk info aad msg seed, H.ValidKey pk →
    ∃ enc ct, H.sealTo pk info aad msg seed = some (enc, ct)
  lengths : ∀ {pk info aad msg seed enc ct}, H.sealTo pk info aad msg seed = some (enc, ct) →
    enc.length = encLen ∧ ct.length = msg.length + tag
  open_seal : ∀ {sk info aad msg seed enc ct},
    H.sealTo (H.publicKey sk).bytes info aad msg seed = some (enc, ct) →
    H.openWith enc sk.bytes info aad ct = some msg

-- What opens under a secret key was sealed to its public key, with that info
-- and associated data.
def Authentic : Prop := ∀ {enc sk info aad ct msg},
  H.openWith enc (FixedBytes.bytes sk) info aad ct = some msg →
  ∃ seed, H.sealTo (H.publicKey sk).bytes info aad msg seed = some (enc, ct)

end Hpke

structure Signature where
  publicKey : FixedBytes 32 → FixedBytes 32
  sign : FixedBytes 32 → Bytes → FixedBytes 64
  validKey : FixedBytes 32 → Bool
  verify : FixedBytes 32 → Bytes → FixedBytes 64 → Bool

-- Verification accepts what signing produced.
structure Signature.Correct (S : Signature) : Prop where
  validKey_publicKey : ∀ sk, S.validKey (S.publicKey sk) = true
  verify_sign : ∀ sk msg, S.verify (S.publicKey sk) msg (S.sign sk msg) = true

-- A serialisation format for one type; the errors are the library's texts.
structure Codec (α : Type) where
  encode : α → Except String Bytes
  decode : Bytes → Except String α

-- Decoding undoes encoding.
def Codec.RoundTrips {α : Type} (c : Codec α) : Prop :=
  ∀ {a b}, c.encode a = .ok b → c.decode b = .ok a

-- The first item of the input is read, and what comes after it is left alone.
def Codec.ReadsFirst {α : Type} (c : Codec α) : Prop :=
  ∀ {a b} more, c.encode a = .ok b → c.decode (b ++ more) = .ok a

theorem Codec.ReadsFirst.roundTrips {α : Type} {c : Codec α} (h : c.ReadsFirst) : c.RoundTrips := by
  intro a b he
  simpa using h [] he

-- Values of at most `limit` bytes by the measure `size` encode, to at most
-- that many bytes.
def Codec.Bounded {α : Type} (c : Codec α) (size : α → Nat) (limit : Nat) : Prop :=
  ∀ a, size a ≤ limit → ∃ b, c.encode a = .ok b ∧ b.length ≤ size a

end Zbacs.Lib
