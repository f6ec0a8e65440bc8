import Zbacs.Core.Primitives
import Zbacs.Core.Wire

namespace Zbacs.Core.Reference

open Zbacs.Lib Zbacs.Lib.Cbor

-- Executable stand-ins for the libraries, with the documented interface: output
-- lengths, tags that depend on every input, and the CBOR encoding itself. They
-- keep no secret; they show that the laws can be met and let runs be computed.

def digest (b : Bytes) : FixedBytes 32 :=
  ⟨leBytes 32 (b.foldl (fun acc x => (acc * 257 + x.toNat + 1) % 2 ^ 256) 7), by simp⟩

def tagOf (b : Bytes) : FixedBytes 16 := (digest b).first16

-- Split a ciphertext into message and tag.
def splitTag (ct : Bytes) : Option (Bytes × Bytes) :=
  if ct.length < tagLen then none
  else some (ct.take (ct.length - tagLen), ct.drop (ct.length - tagLen))

theorem splitTag_eq_some {ct msg tag : Bytes} :
    splitTag ct = some (msg, tag) ↔ ct = msg ++ tag ∧ tag.length = tagLen := by
  unfold splitTag
  constructor
  · intro h
    split_ifs at h with hlen
    cases h
    exact ⟨(List.take_append_drop _ _).symm, by simp only [List.length_drop]; omega⟩
  · rintro ⟨rfl, hlen⟩
    rw [if_neg (by simp only [List.length_append]; omega), List.length_append, hlen,
      Nat.add_sub_cancel, List.take_left, List.drop_left]

@[simp] theorem splitTag_append (msg : Bytes) (tag : FixedBytes 16) :
    splitTag (msg ++ tag.bytes) = some (msg, tag.bytes) :=
  splitTag_eq_some.mpr ⟨rfl, tag.length_bytes⟩

def messageLimit : Nat := 2 ^ 36

def macOf (k : FixedBytes 32) (n : FixedBytes 24) (aad msg : Bytes) : FixedBytes 16 :=
  tagOf (k.bytes ++ n.bytes ++ leBytes 8 aad.length ++ aad ++ msg)

def aead : Aead (FixedBytes 32) (FixedBytes 24) where
  encrypt k n aad msg := if msg.length ≤ messageLimit then some (msg ++ (macOf k n aad msg).bytes) else none
  decrypt k n aad ct := match splitTag ct with
    | none => none
    | some (msg, tag) =>
      if msg.length ≤ messageLimit ∧ tag = (macOf k n aad msg).bytes then some msg else none

theorem aead_encrypt_eq_some {k : FixedBytes 32} {n : FixedBytes 24} {aad msg ct : Bytes} :
    Reference.aead.encrypt k n aad msg = some ct ↔
      msg.length ≤ messageLimit ∧ ct = msg ++ (macOf k n aad msg).bytes := by
  simp only [Reference.aead]
  split_ifs with h
  · simp [h, eq_comm]
  · simp [h]

theorem aead_correct : aead.Correct tagLen (2 ^ 32) where
  encrypts k n aad msg h := ⟨_, aead_encrypt_eq_some.mpr ⟨h.trans (by decide), rfl⟩⟩
  length_ct h := by
    obtain ⟨_, rfl⟩ := aead_encrypt_eq_some.mp h
    simp [tagLen]
  decrypt_encrypt {k n aad msg ct} h := by
    obtain ⟨hlen, rfl⟩ := aead_encrypt_eq_some.mp h
    simp [Reference.aead, hlen]

-- Public keys are the secret ones with every byte moved by one.
def publicKey (sk : FixedBytes 32) : FixedBytes 32 := ⟨sk.bytes.map (· + 1), by simp⟩

def ephemeral (seed : Bytes) : FixedBytes 32 := ⟨leBytes 32 (leNat seed), by simp⟩

def sealTag (pk info aad enc msg : Bytes) : FixedBytes 16 :=
  tagOf (pk ++ leBytes 8 info.length ++ info ++ leBytes 8 aad.length ++ aad ++ enc ++ msg)

def hpke : Hpke where
  publicKey := publicKey
  sealTo pk info aad msg seed :=
    if pk.length = 32 then
      let enc := (ephemeral seed).bytes
      some (enc, msg ++ (sealTag pk info aad enc msg).bytes)
    else none
  openWith enc sk info aad ct :=
    match FixedBytes.ofBytes? 32 sk, FixedBytes.ofBytes? 32 enc, splitTag ct with
    | some sk, some enc, some (msg, tag) =>
      if tag = (sealTag (publicKey sk).bytes info aad enc.bytes msg).bytes then some msg else none
    | _, _, _ => none

theorem hpke_correct : hpke.Correct 32 tagLen where
  seals pk info aad msg seed hpk := by
    obtain ⟨sk, rfl⟩ := hpk
    exact ⟨_, _, if_pos (by simp)⟩
  lengths {pk info aad msg seed enc ct} h := by
    simp only [hpke] at h
    split_ifs at h
    cases h
    simp [tagLen]
  open_seal {sk info aad msg seed enc ct} h := by
    simp only [hpke, FixedBytes.length_bytes, if_true] at h
    cases h
    simp [hpke]

theorem hpke_authentic : hpke.Authentic := by
  intro enc sk info aad ct msg h
  simp only [hpke, FixedBytes.ofBytes?_bytes] at h
  split at h
  · rename_i sk' enc' msg' tag hsk henc hsplit
    split_ifs at h with htag
    cases hsk
    cases h
    obtain rfl := FixedBytes.ofBytes?_eq_some.mp henc
    obtain ⟨rfl, _⟩ := splitTag_eq_some.mp hsplit
    have heph : ephemeral enc'.bytes = enc' := by
      apply FixedBytes.ext
      have := leBytes_leNat enc'.bytes
      rwa [FixedBytes.length_bytes] at this
    exact ⟨enc'.bytes, by simp [hpke, heph, htag]⟩
  · cases h

def ed25519 : Signature where
  publicKey := publicKey
  sign sk msg :=
    ⟨(digest ((publicKey sk).bytes ++ msg)).bytes ++ (digest (msg ++ (publicKey sk).bytes)).bytes,
      by simp⟩
  validKey _ := true
  verify pk msg sig :=
    sig.bytes = (digest (pk.bytes ++ msg)).bytes ++ (digest (msg ++ pk.bytes)).bytes

theorem ed25519_correct : ed25519.Correct where
  validKey_publicKey _ := rfl
  verify_sign sk msg := by simp [ed25519]

def primitives : Primitives where
  sha256 := digest
  blake3 b := digest (b ++ [1])
  aead := aead
  hpke := hpke
  ed25519 := ed25519
  headerCodec := headerWire.codec
  bodyCodec := bodyCborCodec
  envelopeCodec := envelopeWire.codec

theorem bodyCborCodec_bounded : bodyCborCodec.Bounded HeaderBody.cborBound (2 ^ 32) := by
  intro b hb
  have hsize := bodyWire_size b
  have hbounded : bodyWire.codec.Bounded bodyWire.size (2 ^ 32) :=
    bodyWire.codec_bounded (by decide) fun _ => Nat.le_refl _
  obtain ⟨entries, he, hlen⟩ := hbounded b (by omega)
  refine ⟨_, by simp [bodyCborCodec, he]; rfl, ?_⟩
  simp only [List.length_cons]
  omega

theorem primitives_lawful : primitives.Lawful where
  aead := aead_correct
  hpke := hpke_correct
  ed25519 := ed25519_correct
  headerCodec := headerWire.codec_roundTrips
  headerBounded := headerWire.codec_bounded (by decide) headerWire_size
  bodyBounded := bodyCborCodec_bounded
  envelopeCodec := envelopeWire.codec_roundTrips
  envelopeBounded := envelopeWire.codec_bounded (by decide) fun e =>
    (Nat.le_succ _).trans (envelopeWire_size e)

-- Key pairs to run with: an owner and a recipient's device.
def owner : OwnerKeys primitives := ⟨.fromSecret (.replicate 32 0x11), ⟨.replicate 32 0x12⟩⟩

def device : DeviceKeys primitives := .fromSecret (.replicate 32 0x21)

end Zbacs.Core.Reference
