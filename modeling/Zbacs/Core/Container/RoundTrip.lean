import Zbacs.Core.Container.Opening
import Zbacs.Core.Reference

namespace Zbacs.Core

open Zbacs.Lib

variable {P : Primitives}

-- Sealing succeeds, and the owner and every extra recipient open the result:
-- the same plaintext, header, header hash and file name. The readers of both
-- sides may return any number of bytes per call.
theorem openContainer_sealContainer (hP : P.Lawful) (input : Seekable) {sink : Sink}
    (hs : sink.Total) (owner : OwnerKeys P) {opts : SealOptions} (hopts : opts.Sealable P)
    (rng : SealRandom)
    (hdistinct : ∀ pk ∈ owner.sealing.x25519Pk.bytes :: opts.extraRecipients,
      ∀ pk' ∈ owner.sealing.x25519Pk.bytes :: opts.extraRecipients,
      keyIdOf P pk = keyIdOf P pk' → pk = pk') :
    ∃ h out hash, sealContainer P input sink owner opts rng = .ok (h, out) ∧
      h.headerHash P = .ok hash ∧
      ∀ keys : DeviceKeys P,
        keys.x25519Pk.bytes ∈ owner.sealing.x25519Pk.bytes :: opts.extraRecipients →
      ∀ (offer : Nat → Nat) (dest : Sink), dest.Total →
        openContainer P (.ofData out offer) dest keys =
          ⟨.ok ⟨h, hash, opts.fileName⟩, input.data⟩ := by
  obtain ⟨h, out, hseal⟩ := sealSigned_ok hP hopts.accepted input hs owner.sealing.validKey owner.signing rng
  obtain ⟨headerBytes, frames, s⟩ := sealSigned_eq_ok hseal
  refine ⟨h, out, P.sha256 headerBytes, hseal, Header.headerHash_eq s.encoded, ?_⟩
  intro keys hkeys offer dest hdest
  exact s.openContainer_eq hP hopts.withinLimits input.length_lt hdest hkeys
    (fun pk hpk => hdistinct pk hpk _ hkeys) (Reader.rest_ofData out offer)

namespace Reference

-- Five bytes in chunks of two, read one byte at a time, for the owner and one
-- more device.
def options : SealOptions :=
  { SealOptions.new [0x01, 0x02] "a.txt" with
    chunkSize := 2
    extraRecipients := [device.x25519Pk.bytes] }

def draws : SealRandom :=
  ⟨.replicate 32 0x31, .replicate 16 0x32, .replicate 16 0x33, fun i => [UInt8.ofNat i]⟩

def input : Seekable := .ofData [1, 2, 3, 4, 5] (fun _ => 1) (by decide)

theorem options_sealable : options.Sealable primitives where
  chunkPos := by decide
  chunkMax := by decide
  name := by decide
  ownerPos := by decide
  ownerMax := by decide
  recipients := by
    intro pk hpk
    obtain rfl : pk = device.x25519Pk.bytes := by simpa [options] using hpk
    exact device.validKey
  recipientsMax := by decide
  prev := by rintro p ⟨⟩

end Reference

theorem openContainer_sealContainer_two_recipients :
    ∃ h out hash, sealContainer Reference.primitives Reference.input .memory Reference.owner
        Reference.options Reference.draws = .ok (h, out) ∧
      h.headerHash Reference.primitives = .ok hash ∧
      openContainer Reference.primitives (.ofData out fun _ => 7) .memory Reference.device =
        ⟨.ok ⟨h, hash, "a.txt"⟩, [1, 2, 3, 4, 5]⟩ := by
  obtain ⟨h, out, hash, hseal, hhash, hopen⟩ := openContainer_sealContainer
    Reference.primitives_lawful Reference.input Sink.memory_total Reference.owner
    Reference.options_sealable Reference.draws (by decide)
  exact ⟨h, out, hash, hseal, hhash, hopen Reference.device (by decide) _ _ Sink.memory_total⟩

end Zbacs.Core
