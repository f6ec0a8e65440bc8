import Zbacs.Core.Path.Versions

namespace Zbacs.Core

open Zbacs.Lib

-- Bytes that `Header::encode` writes, for one header or another.
def Canonical (P : Primitives) (bytes : Bytes) : Prop := ∃ h : Header, h.encode P = .ok bytes

-- All that a chain asks of the version after `last`, its own hash apart.
structure NextInLine (last : Header) (lastHash : HeaderHash) (h : Header) : Prop where
  ver : h.body.ver = last.body.ver + 1
  prev : h.body.prev = some lastHash
  fid : h.body.fid = last.body.fid
  salt : h.body.salt = last.body.salt

section Canonical

variable {P : Primitives} {bytes : Bytes} {h : Header} {hash : HeaderHash}

theorem Header.headerHash_eq_ok :
    h.headerHash P = .ok hash ↔ ∃ own, h.encode P = .ok own ∧ P.sha256 own = hash := by
  simp only [Header.headerHash, bind_eq_ok, pure_eq_ok, Except.ok.injEq]

-- What is read back from an encoding is the header it is the encoding of.
theorem Canonical.encode_eq (hc : Canonical P bytes) (hcodec : P.headerCodec.RoundTrips)
    (hd : P.headerCodec.decode bytes = .ok h) : h.encode P = .ok bytes := by
  obtain ⟨h', he⟩ := hc
  have hback := hcodec (Header.encode_eq_ok.mp he).1
  rw [hd] at hback
  cases hback
  exact he

theorem verifyLinks_singleton {last : Header} {lastHash : HeaderHash} (hnext : NextInLine last lastHash h) :
    verifyLinks P last lastHash [(h, hash)] = .ok () ↔ h.headerHash P = .ok hash := by
  rw [verifyLinks_cons]
  constructor
  · rintro ⟨hlink, -⟩
    exact hlink.hash
  · intro hown
    exact ⟨⟨hnext.ver, hnext.prev, hnext.fid, hnext.salt, hown⟩, rfl⟩

-- The signature covers the header that was read, the hash the bytes it was read from: the two
-- speak of the same bytes for the encodings only.
theorem headerHash_canonical (hcodec : P.headerCodec.RoundTrips)
    (hd : Header.decodeVerified P bytes = .ok (h, hash))
    (hfree : ∀ own, h.encode P = .ok own → P.sha256 own = P.sha256 bytes → own = bytes) :
    h.headerHash P = .ok hash ↔ Canonical P bytes := by
  obtain ⟨hdecode, -, rfl⟩ := Header.decodeVerified_eq_ok hd
  rw [Header.headerHash_eq_ok]
  constructor
  · rintro ⟨own, he, hsame⟩
    obtain rfl := hfree own he hsame
    exact ⟨h, he⟩
  · intro hc
    exact ⟨bytes, hc.encode_eq hcodec hdecode, rfl⟩

-- One header has one encoding.
theorem Canonical.unique (hc : Canonical P bytes) (hcodec : P.headerCodec.RoundTrips) {bytes' : Bytes}
    (hc' : Canonical P bytes') (hd : P.headerCodec.decode bytes = .ok h)
    (hd' : P.headerCodec.decode bytes' = .ok h) : bytes' = bytes := by
  have he := hc.encode_eq hcodec hd
  rw [hc'.encode_eq hcodec hd'] at he
  exact Except.ok.inj he

-- Of everything that is accepted, the hash is the header's own exactly where the bytes are the
-- header's encoding; that is also where the next version in a chain passes. Among encodings, a
-- header has one.
theorem decodeVerified_canonical_iff (hcodec : P.headerCodec.RoundTrips)
    (hd : Header.decodeVerified P bytes = .ok (h, hash))
    (hfree : ∀ own, h.encode P = .ok own → P.sha256 own = P.sha256 bytes → own = bytes) :
    (h.headerHash P = .ok hash ↔ Canonical P bytes) ∧
      (∀ last lastHash, NextInLine last lastHash h →
        (verifyLinks P last lastHash [(h, hash)] = .ok () ↔ Canonical P bytes)) ∧
      (Canonical P bytes → ∀ bytes' hash', Canonical P bytes' →
        Header.decodeVerified P bytes' = .ok (h, hash') → bytes' = bytes ∧ hash' = hash) := by
  have hown := headerHash_canonical hcodec hd hfree
  refine ⟨hown, fun last lastHash hnext => (verifyLinks_singleton hnext).trans hown, ?_⟩
  intro hc bytes' hash' hc' hd'
  obtain ⟨hdecode, -, rfl⟩ := Header.decodeVerified_eq_ok hd
  obtain ⟨hdecode', -, rfl⟩ := Header.decodeVerified_eq_ok hd'
  obtain rfl := hc.unique hcodec hc' hdecode hdecode'
  exact ⟨rfl, rfl⟩

end Canonical

section Trailing

variable {P : Primitives} {bytes more : Bytes} {h : Header}

-- A reader of the first item takes a signed header with anything behind it, under the hash of both.
theorem decodeVerified_append (hfirst : P.headerCodec.ReadsFirst) (he : h.encode P = .ok bytes)
    (hv : h.verify P = .ok ()) (hlen : (bytes ++ more).length ≤ maxHeaderLen) :
    Header.decodeVerified P (bytes ++ more) = .ok (h, P.sha256 (bytes ++ more)) := by
  rw [Header.decodeVerified, if_neg (by omega), hfirst more (Header.encode_eq_ok.mp he).1]
  simp only [hv, ok_bind, pure_eq_ok]

theorem not_canonical_append (hfirst : P.headerCodec.ReadsFirst) (he : h.encode P = .ok bytes)
    (hmore : more ≠ []) : ¬Canonical P (bytes ++ more) := by
  intro hc
  have hcodec : P.headerCodec.RoundTrips := hfirst.roundTrips
  have hagain := hc.encode_eq hcodec (hfirst more (Header.encode_eq_ok.mp he).1)
  rw [he, Except.ok.injEq, List.self_eq_append_right] at hagain
  exact hmore hagain

end Trailing

namespace Reference

-- `firstHeader` as the owner signs it, what is written of it, and the same with a byte behind it.
def signedHeader : Header :=
  { firstHeader with
    sigk := (owner.signing.verifyingKey primitives).bytes
    sig := (ed25519.sign owner.signing.sk (hdrSigDomain ++ 0xad :: bodyWire.put firstHeader.body)).bytes }

def signedBytes : Bytes := headerWire.put signedHeader

def paddedBytes : Bytes := signedBytes ++ [0]

theorem headerCodec_readsFirst : primitives.headerCodec.ReadsFirst := headerWire.codec_readsFirst

theorem signedHeader_encode : signedHeader.encode primitives = .ok signedBytes :=
  Header.encode_eq_ok.mpr ⟨headerWire.encode_put (by decide +kernel), by decide +kernel⟩

theorem signedHeader_verify : signedHeader.verify primitives = .ok () := by decide +kernel

theorem paddedBytes_accepted :
    Header.decodeVerified primitives paddedBytes = .ok (signedHeader, digest paddedBytes) :=
  decodeVerified_append headerCodec_readsFirst signedHeader_encode signedHeader_verify
    (by decide +kernel)

theorem digest_paddedBytes : digest signedBytes ≠ digest paddedBytes := by decide +kernel

theorem decodeVerified_paddedBytes :
    signedHeader.headerHash primitives ≠ .ok (digest paddedBytes) ∧ ¬Canonical primitives paddedBytes := by
  have hfree : ∀ own, signedHeader.encode primitives = .ok own →
      primitives.sha256 own = primitives.sha256 paddedBytes → own = paddedBytes := by
    rintro own he hsame
    rw [signedHeader_encode, Except.ok.injEq] at he
    subst he
    exact absurd hsame digest_paddedBytes
  have hiff := (decodeVerified_canonical_iff headerCodec_readsFirst.roundTrips paddedBytes_accepted
    hfree).1
  have hnot := not_canonical_append headerCodec_readsFirst signedHeader_encode
    (List.cons_ne_nil (0 : UInt8) [])
  exact ⟨fun hown => hnot (hiff.mp hown), hnot⟩

-- The header with the byte behind it is accepted under a hash that is not its own.
theorem not_decodeVerified_canonical : ¬∀ bytes h hash,
    Header.decodeVerified primitives bytes = .ok (h, hash) → h.headerHash primitives = .ok hash := by
  intro hall
  have hown := hall _ _ _ paddedBytes_accepted
  rw [Header.headerHash_eq signedHeader_encode, Except.ok.injEq] at hown
  exact digest_paddedBytes hown

end Reference

end Zbacs.Core
