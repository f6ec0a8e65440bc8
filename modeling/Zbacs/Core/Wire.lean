import Zbacs.Core.Types
import Zbacs.Lib.Cbor

namespace Zbacs.Core

open Zbacs.Lib Zbacs.Lib.Cbor

-- The CBOR maps of the header, entry by entry as the serialiser writes them.

def textWire : Wire String :=
  (Wire.string 3 (by decide)).refine (fun b => String.fromUTF8? ⟨b.toArray⟩) utf8 fun s => by
    simp [utf8, String.fromUTF8?, String.fromUTF8, s.isValidUTF8]

def u32Wire : Wire UInt32 :=
  Wire.uint.refine (fun n => if n.toNat < 2 ^ 32 then some n.toUInt32 else none) UInt32.toUInt64
    fun n => by simp [n.toNat_lt]

def u16Wire : Wire UInt16 :=
  Wire.uint.refine (fun n => if n.toNat < 2 ^ 16 then some n.toUInt16 else none) UInt16.toUInt64
    fun n => by simp [n.toNat_lt]

def u8Wire : Wire UInt8 :=
  Wire.uint.refine (fun n => if n.toNat < 2 ^ 8 then some n.toUInt8 else none) UInt8.toUInt64
    fun n => by simp [n.toNat_lt]

def permissionWire : Wire Permission :=
  u8Wire.refine Permission.ofByte? Permission.toByte Permission.ofByte?_toByte

def entry {α : Type} (key : String) (w : Wire α) : Wire α := w.field (utf8 key)

def policyWire : Wire Policy :=
  ((entry "def" permissionWire).pair <| (entry "ttl" u32Wire).pair <| (entry "max" u16Wire).pair <|
    (entry "pin" .bool).pair (entry "strict" .bool) : Wire _).around [0xa5] []
  |>.iso (fun (default, ttl, max, pin, strict) => ⟨default, ttl, max, pin, strict⟩)
    (fun p => (p.default, p.ttl, p.max, p.pin, p.strict)) fun _ => rfl

def envelopeWire : Wire Envelope :=
  ((entry "kid" (.fixed 16)).pair <| (entry "alg" textWire).pair <|
    (entry "enc" .bytes).pair (entry "ct" .bytes) : Wire _).around [0xa4] []
  |>.iso (fun (kid, alg, enc, ct) => ⟨kid, alg, enc, ct⟩) (fun e => (e.kid, e.alg, e.enc, e.ct))
    fun _ => rfl

-- `prev` is null in the first version.
def prevWire : Wire (Option HeaderHash) := (Wire.fixed 32).nullable (Wire.fixed_avoids_null 32)

abbrev TailFields := Policy × UInt8 × UInt32 × UInt64 × NoncePrefix × Bytes × List Envelope

def tailWire : Wire TailFields :=
  (entry "pol" policyWire).pair <| (entry "cipher" u8Wire).pair <| (entry "chunk" u32Wire).pair <|
    (entry "plen" .uint).pair <| (entry "np" (.fixed 16)).pair <| (entry "name" .bytes).pair <|
    entry "env" (.array envelopeWire)

theorem tailWire_avoids : tailWire.Avoids 0x64 := fun _ => ⟨0x63, _, rfl, by decide⟩

abbrev BodyFields := FileId × Salt × UInt32 × Option HeaderHash × Bytes ×
  Option (FixedBytes 32) × TailFields

-- `opub` is left out when there is none. Its key is longer than that of `pol`,
-- so the first byte tells which of the two comes next.
def bodyFields : Wire BodyFields :=
  (entry "fid" (.fixed 32)).pair <| (entry "salt" (.fixed 16)).pair <| (entry "ver" u32Wire).pair <|
    (entry "prev" prevWire).pair <| (entry "own" .bytes).pair <|
    Wire.optional 0x64 (utf8 "opub") (.fixed 32) tailWire tailWire_avoids

def bodyWire : Wire HeaderBody :=
  bodyFields.iso
    (fun (fid, salt, ver, prev, own, opub, pol, cipher, chunk, plen, np, name, env) =>
      ⟨fid, salt, ver, prev, own, opub, pol, cipher, chunk, plen, np, name, env⟩)
    (fun b => (b.fid, b.salt, b.ver, b.prev, b.own, b.opub, b.pol, b.cipher, b.chunk, b.plen, b.np,
      b.name, b.env))
    fun _ => rfl

-- On its own the body is a map of known length.
def bodyCborCodec : Codec HeaderBody where
  encode b := do
    let entries ← bodyWire.codec.encode b
    return (if b.opub.isSome then 0xad else 0xac) :: entries
  decode
    | [] => .error "invalid"
    | _ :: entries => bodyWire.codec.decode entries

-- Flattened into the header, its length is not known to the serialiser in
-- advance: an indefinite map.
def headerWire : Wire Header :=
  (bodyWire.pair <| (entry "sigk" .bytes).pair (entry "sig" .bytes) : Wire _).around [0xbf] [0xff]
  |>.iso (fun (body, sigk, sig) => ⟨body, sigk, sig⟩) (fun h => (h.body, h.sigk, h.sig)) fun _ => rfl

section Size

variable {α : Type}

-- A key is at most six bytes.
theorem entry_size_le (key : String) (h : (utf8 key).length ≤ 6) (w : Wire α) (a : α) :
    (entry key w).size a ≤ 7 + w.size a := by
  have := Wire.size_field (utf8 key) (by omega) w a
  rw [entry]
  omega

theorem textWire_size (s : String) : textWire.size s = 9 + s.toUTF8.size := by
  simp [textWire, utf8]

theorem envelopeWire_size (e : Envelope) : envelopeWire.size e + 1 ≤ e.cborBound := by
  have hkid := entry_size_le "kid" (by decide) (.fixed 16) e.kid
  have halg := entry_size_le "alg" (by decide) textWire e.alg
  have henc := entry_size_le "enc" (by decide) .bytes e.enc
  have hct := entry_size_le "ct" (by decide) .bytes e.ct
  simp only [envelopeWire, Wire.size_iso, Wire.size_around, Wire.size_pair, Wire.size_fixed,
    Wire.size_bytes, textWire_size, List.length_cons, List.length_nil, Envelope.cborBound] at *
  omega

theorem policyWire_size (p : Policy) : policyWire.size p ≤ 66 := by
  have hdef := entry_size_le "def" (by decide) permissionWire p.default
  have httl := entry_size_le "ttl" (by decide) u32Wire p.ttl
  have hmax := entry_size_le "max" (by decide) u16Wire p.max
  have hpin := entry_size_le "pin" (by decide) .bool p.pin
  have hstrict := entry_size_le "strict" (by decide) .bool p.strict
  simp only [policyWire, permissionWire, u8Wire, u16Wire, u32Wire, Wire.size_iso, Wire.size_refine,
    Wire.size_around, Wire.size_pair, Wire.size_uint, Wire.size_bool, List.length_cons,
    List.length_nil] at *
  omega

theorem envelopes_size (es : List Envelope) :
    es.length + (es.map envelopeWire.size).sum ≤ (es.map Envelope.cborBound).sum := by
  induction es with
  | nil => rfl
  | cons e es ih =>
      have := envelopeWire_size e
      simp only [List.length_cons, List.map_cons, List.sum_cons]
      omega

theorem tailWire_size (t : TailFields) : tailWire.size t ≤
    200 + t.2.2.2.2.2.1.length + (t.2.2.2.2.2.2.map Envelope.cborBound).sum := by
  obtain ⟨pol, cipher, chunk, plen, np, name, env⟩ := t
  have hpol := entry_size_le "pol" (by decide) policyWire pol
  have hcipher := entry_size_le "cipher" (by decide) u8Wire cipher
  have hchunk := entry_size_le "chunk" (by decide) u32Wire chunk
  have hplen := entry_size_le "plen" (by decide) .uint plen
  have hnp := entry_size_le "np" (by decide) (.fixed 16) np
  have hname := entry_size_le "name" (by decide) .bytes name
  have henv := entry_size_le "env" (by decide) (.array envelopeWire) env
  have hpolicy := policyWire_size pol
  have hes := envelopes_size env
  simp only [tailWire, u8Wire, u32Wire, Wire.size_refine, Wire.size_pair, Wire.size_uint,
    Wire.size_fixed, Wire.size_bytes, Wire.size_array] at *
  omega

theorem bodyWire_size (b : HeaderBody) : bodyWire.size b + 1 ≤ b.cborBound := by
  have hfid := entry_size_le "fid" (by decide) (.fixed 32) b.fid
  have hsalt := entry_size_le "salt" (by decide) (.fixed 16) b.salt
  have hver := entry_size_le "ver" (by decide) u32Wire b.ver
  have hprev := entry_size_le "prev" (by decide) prevWire b.prev
  have hown := entry_size_le "own" (by decide) .bytes b.own
  have hopt := Wire.size_optional_le 0x64 (utf8 "opub") (.fixed 32) tailWire tailWire_avoids b.opub
    (b.pol, b.cipher, b.chunk, b.plen, b.np, b.name, b.env)
  have htail := tailWire_size (b.pol, b.cipher, b.chunk, b.plen, b.np, b.name, b.env)
  have hkey : (utf8 "opub").length = 4 := by decide
  have hnull : prevWire.size b.prev ≤ 41 := by
    rw [prevWire, Wire.size_nullable]
    cases b.prev <;> simp
  have hopub : b.opub.elim 0 (Wire.fixed 32).size ≤ 41 := by
    cases b.opub <;> simp
  simp only [bodyWire, bodyFields, u32Wire, Wire.size_iso, Wire.size_refine, Wire.size_pair,
    Wire.size_uint, Wire.size_fixed, Wire.size_bytes, HeaderBody.cborBound] at *
  omega

theorem headerWire_size (h : Header) : headerWire.size h ≤ h.cborBound := by
  have hbody := bodyWire_size h.body
  have hsigk := entry_size_le "sigk" (by decide) .bytes h.sigk
  have hsig := entry_size_le "sig" (by decide) .bytes h.sig
  simp only [headerWire, Wire.size_iso, Wire.size_around, Wire.size_pair, Wire.size_bytes,
    List.length_cons, List.length_nil, Header.cborBound] at *
  omega

end Size

end Zbacs.Core
