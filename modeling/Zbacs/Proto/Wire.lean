import Zbacs.Core.Reference
import Zbacs.Proto.Messages

namespace Zbacs.Proto

open Zbacs.Lib Zbacs.Lib.Cbor Zbacs.Core

-- The CBOR maps of the relay messages, entry by entry as the serialiser writes them.

def Kind.ofStr? : String → Option Kind
  | "announce" => some .announce
  | "req" => some .req
  | "grant" => some .grant
  | "revoke" => some .revoke
  | "sub" => some .sub
  | "ack" => some .ack
  | "version" => some .version
  | _ => none

def kindWire : Wire Kind := textWire.refine Kind.ofStr? Kind.asStr fun k => by cases k <;> rfl

def optBytesWire : Wire (Option Bytes) := Wire.bytes.nullable Wire.bytes_avoids_null

def optFixedWire (n : Nat) : Wire (Option (FixedBytes n)) :=
  (Wire.fixed n).nullable (Wire.fixed_avoids_null n)

theorem textWire_avoids_null : textWire.Avoids 0xf6 := fun s =>
  Wire.string_avoids_null (show 3 < 8 by decide) (by decide) (utf8 s)

def optTextWire : Wire (Option String) := textWire.nullable textWire_avoids_null

def announceWire : Wire DeviceAnnounce :=
  ((entry "x25519_pub" (.fixed 32)).pair <| (entry "ed25519_pub" (.fixed 32)).pair <|
    (entry "label" optTextWire).pair (entry "ts" .uint) : Wire _).around [0xa4] []
  |>.iso (fun (x25519Pub, ed25519Pub, label, ts) => ⟨x25519Pub, ed25519Pub, label, ts⟩)
    (fun a => (a.x25519Pub, a.ed25519Pub, a.label, a.ts)) fun _ => rfl

def termsWire : Wire AccessGrantTerms :=
  ((entry "file_id" (.fixed 32)).pair <| (entry "header_hash" (.fixed 32)).pair <|
    (entry "device_key_hash" (.fixed 32)).pair <| (entry "permission" u8Wire).pair <|
    (entry "not_before" .uint).pair <| (entry "expiry" .uint).pair <|
    (entry "max_opens" u16Wire).pair <| (entry "request_nonce" (.fixed 16)).pair
    (entry "grant_nonce" .uint) : Wire _).around [0xa9] []
  |>.iso (fun (fileId, headerHash, deviceKeyHash, permission, notBefore, expiry, maxOpens,
      requestNonce, grantNonce) => ⟨fileId, headerHash, deviceKeyHash, permission, notBefore, expiry,
        maxOpens, requestNonce, grantNonce⟩)
    (fun t => (t.fileId, t.headerHash, t.deviceKeyHash, t.permission, t.notBefore, t.expiry,
      t.maxOpens, t.requestNonce, t.grantNonce)) fun _ => rfl

def requestWire : Wire AccessRequest :=
  ((entry "fid" (.fixed 32)).pair <| (entry "header_hash" (.fixed 32)).pair <|
    (entry "owner" .bytes).pair <| (entry "device_kid" (.fixed 16)).pair <|
    (entry "x25519_pub" (.fixed 32)).pair <| (entry "ed25519_pub" (.fixed 32)).pair <|
    (entry "requested" u8Wire).pair <| (entry "nonce" (.fixed 16)).pair <|
    (entry "hint" optBytesWire).pair (entry "ts" .uint) : Wire _).around [0xaa] []
  |>.iso (fun (fid, headerHash, owner, deviceKid, x25519Pub, ed25519Pub, requested, nonce, hint,
      ts) => ⟨fid, headerHash, owner, deviceKid, x25519Pub, ed25519Pub, requested, nonce, hint, ts⟩)
    (fun r => (r.fid, r.headerHash, r.owner, r.deviceKid, r.x25519Pub, r.ed25519Pub, r.requested,
      r.nonce, r.hint, r.ts)) fun _ => rfl

def grantWire : Wire GrantMsg :=
  ((entry "request_nonce" (.fixed 16)).pair <| (entry "grant" optBytesWire).pair <|
    (entry "owner_sig" optBytesWire).pair <| (entry "envelope" optBytesWire).pair <|
    (entry "tx_hash" (optFixedWire 32)).pair <| (entry "decision" u8Wire).pair
    (entry "ts" .uint) : Wire _).around [0xa7] []
  |>.iso (fun (requestNonce, grant, ownerSig, envelope, txHash, decision, ts) =>
      ⟨requestNonce, grant, ownerSig, envelope, txHash, decision, ts⟩)
    (fun g => (g.requestNonce, g.grant, g.ownerSig, g.envelope, g.txHash, g.decision, g.ts))
    fun _ => rfl

def revokeWire : Wire Revoke :=
  ((entry "grant_id" (.fixed 32)).pair <| (entry "fid" (.fixed 32)).pair
    (entry "ts" .uint) : Wire _).around [0xa3] []
  |>.iso (fun (grantId, fid, ts) => ⟨grantId, fid, ts⟩) (fun r => (r.grantId, r.fid, r.ts)) fun _ => rfl

def versionWire : Wire VersionMsg :=
  ((entry "fid" (.fixed 32)).pair <| (entry "owner" .bytes).pair <|
    (entry "prev_header_hash" (.fixed 32)).pair <| (entry "header_hash" (.fixed 32)).pair <|
    (entry "ver" u32Wire).pair <| (entry "grant_id" (.fixed 32)).pair <|
    (entry "owner_envelope" .bytes).pair <| (entry "ed25519_pub" (.fixed 32)).pair
    (entry "ts" .uint) : Wire _).around [0xa9] []
  |>.iso (fun (fid, owner, prevHeaderHash, headerHash, ver, grantId, ownerEnvelope, ed25519Pub,
      ts) => ⟨fid, owner, prevHeaderHash, headerHash, ver, grantId, ownerEnvelope, ed25519Pub, ts⟩)
    (fun v => (v.fid, v.owner, v.prevHeaderHash, v.headerHash, v.ver, v.grantId, v.ownerEnvelope,
      v.ed25519Pub, v.ts)) fun _ => rfl

def signedWire : Wire Signed :=
  ((entry "payload" .bytes).pair <| (entry "kid" (.fixed 16)).pair <| (entry "kind" kindWire).pair <|
    (entry "ts" .uint).pair <| (entry "nonce" (.fixed 16)).pair (entry "sig" (.fixed 64)) :
    Wire _).around [0xa6] []
  |>.iso (fun (payload, kid, kind, ts, nonce, sig) => ⟨payload, kid, kind, ts, nonce, sig⟩)
    (fun s => (s.payload, s.kid, s.kind, s.ts, s.nonce, s.sig)) fun _ => rfl

def Reference.libraries : Libraries where
  toPrimitives := Core.Reference.primitives
  keccak256 b := Core.Reference.digest (b ++ [2])
  termsCodec := termsWire.codec
  signedCodec := signedWire.codec
  requestCodec := requestWire.codec
  grantCodec := grantWire.codec
  revokeCodec := revokeWire.codec
  versionCodec := versionWire.codec

section Size

-- Keys are shorter than 24 bytes, so an entry costs its key, one byte and the value.
theorem entry_size_short {α : Type} (key : String) (h : (utf8 key).length < 24) (w : Wire α) (a : α) :
    (entry key w).size a ≤ 24 + w.size a := by
  have := Wire.size_field (utf8 key) h w a
  rw [entry]
  omega

theorem termsWire_size (t : AccessGrantTerms) : termsWire.size t ≤ 450 := by
  have hfile := entry_size_short "file_id" (by decide) (.fixed 32) t.fileId
  have hheader := entry_size_short "header_hash" (by decide) (.fixed 32) t.headerHash
  have hdevice := entry_size_short "device_key_hash" (by decide) (.fixed 32) t.deviceKeyHash
  have hpermission := entry_size_short "permission" (by decide) u8Wire t.permission
  have hbefore := entry_size_short "not_before" (by decide) .uint t.notBefore
  have hexpiry := entry_size_short "expiry" (by decide) .uint t.expiry
  have hopens := entry_size_short "max_opens" (by decide) u16Wire t.maxOpens
  have hnonce := entry_size_short "request_nonce" (by decide) (.fixed 16) t.requestNonce
  have hgrant := entry_size_short "grant_nonce" (by decide) .uint t.grantNonce
  simp only [termsWire, u8Wire, u16Wire, Wire.size_iso, Wire.size_refine, Wire.size_around,
    Wire.size_pair, Wire.size_uint, Wire.size_fixed, List.length_cons, List.length_nil] at *
  omega

theorem optBytesWire_size (b : Option Bytes) : optBytesWire.size b ≤ 9 + (b.getD []).length := by
  cases b <;> simp [optBytesWire]

theorem optFixedWire_size (n : Nat) (b : Option (FixedBytes n)) : (optFixedWire n).size b ≤ 9 + n := by
  cases b with
  | none =>
      simp only [optFixedWire, Wire.size_nullable, Option.elim_none]
      omega
  | some b => simp [optFixedWire]

theorem grantWire_size (g : GrantMsg) : grantWire.size g ≤
    350 + (g.grant.getD []).length + (g.ownerSig.getD []).length + (g.envelope.getD []).length := by
  have hnonce := entry_size_short "request_nonce" (by decide) (.fixed 16) g.requestNonce
  have hgrant := entry_size_short "grant" (by decide) optBytesWire g.grant
  have hsig := entry_size_short "owner_sig" (by decide) optBytesWire g.ownerSig
  have henvelope := entry_size_short "envelope" (by decide) optBytesWire g.envelope
  have htx := entry_size_short "tx_hash" (by decide) (optFixedWire 32) g.txHash
  have hdecision := entry_size_short "decision" (by decide) u8Wire g.decision
  have hts := entry_size_short "ts" (by decide) .uint g.ts
  have := optBytesWire_size g.grant
  have := optBytesWire_size g.ownerSig
  have := optBytesWire_size g.envelope
  have := optFixedWire_size 32 g.txHash
  simp only [grantWire, u8Wire, Wire.size_iso, Wire.size_refine, Wire.size_around,
    Wire.size_pair, Wire.size_uint, Wire.size_fixed, List.length_cons, List.length_nil] at *
  omega

theorem kindWire_size (k : Kind) : kindWire.size k ≤ 17 := by
  have hlen : k.asStr.toUTF8.size ≤ 8 := by
    cases k <;> decide
  simp only [kindWire, Wire.size_refine, textWire_size]
  omega

theorem signedWire_size (s : Signed) : signedWire.size s ≤ 350 + s.payload.length := by
  have hpayload := entry_size_short "payload" (by decide) .bytes s.payload
  have hkid := entry_size_short "kid" (by decide) (.fixed 16) s.kid
  have hkind := entry_size_short "kind" (by decide) kindWire s.kind
  have hts := entry_size_short "ts" (by decide) .uint s.ts
  have hnonce := entry_size_short "nonce" (by decide) (.fixed 16) s.nonce
  have hsig := entry_size_short "sig" (by decide) (.fixed 64) s.sig
  have := kindWire_size s.kind
  simp only [signedWire, Wire.size_iso, Wire.size_around, Wire.size_pair, Wire.size_uint,
    Wire.size_fixed, Wire.size_bytes, List.length_cons, List.length_nil] at *
  omega

theorem versionWire_size (v : VersionMsg) :
    versionWire.size v ≤ 500 + v.owner.length + v.ownerEnvelope.length := by
  have hfid := entry_size_short "fid" (by decide) (.fixed 32) v.fid
  have howner := entry_size_short "owner" (by decide) .bytes v.owner
  have hprev := entry_size_short "prev_header_hash" (by decide) (.fixed 32) v.prevHeaderHash
  have hheader := entry_size_short "header_hash" (by decide) (.fixed 32) v.headerHash
  have hver := entry_size_short "ver" (by decide) u32Wire v.ver
  have hgrant := entry_size_short "grant_id" (by decide) (.fixed 32) v.grantId
  have henvelope := entry_size_short "owner_envelope" (by decide) .bytes v.ownerEnvelope
  have hkey := entry_size_short "ed25519_pub" (by decide) (.fixed 32) v.ed25519Pub
  have hts := entry_size_short "ts" (by decide) .uint v.ts
  simp only [versionWire, u32Wire, Wire.size_iso, Wire.size_refine, Wire.size_around, Wire.size_pair,
    Wire.size_uint, Wire.size_fixed, Wire.size_bytes, List.length_cons, List.length_nil] at *
  omega

theorem announceWire_size (a : DeviceAnnounce) :
    announceWire.size a ≤ 250 + (a.label.elim 0 fun s => s.toUTF8.size) := by
  have hx := entry_size_short "x25519_pub" (by decide) (.fixed 32) a.x25519Pub
  have hed := entry_size_short "ed25519_pub" (by decide) (.fixed 32) a.ed25519Pub
  have hlabel := entry_size_short "label" (by decide) optTextWire a.label
  have hts := entry_size_short "ts" (by decide) .uint a.ts
  have htext : optTextWire.size a.label ≤ 9 + (a.label.elim 0 fun s => s.toUTF8.size) := by
    rcases a.label with _ | s <;> simp [optTextWire, textWire_size]
  simp only [announceWire, Wire.size_iso, Wire.size_around, Wire.size_pair, Wire.size_uint,
    Wire.size_fixed, List.length_cons, List.length_nil] at *
  omega

theorem requestWire_size (r : AccessRequest) :
    requestWire.size r ≤ 550 + r.owner.length + (r.hint.getD []).length := by
  have hfid := entry_size_short "fid" (by decide) (.fixed 32) r.fid
  have hheader := entry_size_short "header_hash" (by decide) (.fixed 32) r.headerHash
  have howner := entry_size_short "owner" (by decide) .bytes r.owner
  have hkid := entry_size_short "device_kid" (by decide) (.fixed 16) r.deviceKid
  have hx := entry_size_short "x25519_pub" (by decide) (.fixed 32) r.x25519Pub
  have hed := entry_size_short "ed25519_pub" (by decide) (.fixed 32) r.ed25519Pub
  have hrequested := entry_size_short "requested" (by decide) u8Wire r.requested
  have hnonce := entry_size_short "nonce" (by decide) (.fixed 16) r.nonce
  have hhint := entry_size_short "hint" (by decide) optBytesWire r.hint
  have hts := entry_size_short "ts" (by decide) .uint r.ts
  have := optBytesWire_size r.hint
  simp only [requestWire, u8Wire, Wire.size_iso, Wire.size_refine, Wire.size_around, Wire.size_pair,
    Wire.size_uint, Wire.size_fixed, Wire.size_bytes, List.length_cons, List.length_nil] at *
  omega

-- What is put on the wire is read back, if it is not too long.
theorem Reference.fromBytes_put (s : Signed) (h : s.payload.length ≤ 60000) :
    Signed.fromBytes Reference.libraries (signedWire.put s) = .ok s := by
  have hsize := signedWire_size s
  have hbody := signedWire.length_put s
  have hdecode : Reference.libraries.signedCodec.decode (signedWire.put s) = .ok s := by
    rw [show Reference.libraries.signedCodec = signedWire.codec from rfl,
      signedWire.decode_put _ (by omega)]
  have hmax : ¬(signedWire.put s).length > maxBodyLen := by
    simp only [maxBodyLen]
    omega
  simp only [Signed.fromBytes, if_neg hmax, hdecode, Except.mapError]

-- A message of moderate size can be signed and sent.
theorem Reference.sign_ok {α : Type} {w : Wire α} {a : α} (h : w.size a ≤ 60000) (kind : Kind)
    (device : DeviceIdentity Reference.libraries) (ts : UInt64) (nonce : FixedBytes 16) :
    ∃ signed, Signed.sign Reference.libraries kind w.codec device a ts nonce = .ok signed ∧
      Signed.fromBytes Reference.libraries (signedWire.put signed) = .ok signed := by
  have hlen := (w.length_put a).trans h
  have hencode := w.encode_put (a := a) (by omega)
  have hmax : ¬(w.put a).length > maxBodyLen := by
    simp only [maxBodyLen]
    omega
  refine ⟨_, by simp only [Signed.sign, hencode, if_neg hmax]; rfl, Reference.fromBytes_put _ hlen⟩

end Size

end Zbacs.Proto
