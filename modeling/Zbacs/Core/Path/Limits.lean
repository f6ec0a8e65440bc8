import Zbacs.Core.Container.RoundTrip
import Zbacs.Core.Path.Theorems

namespace Zbacs.Core

open Zbacs.Lib

variable {P : Primitives}

-- The reader of the program that wrote it takes a container.
def Readable (P : Primitives) (out : Bytes) : Prop :=
  ∀ offer, ∃ found, readHeader P (.ofData out offer) = .ok found

-- What could be read was sealed within the limits.
theorem SealedAs.withinLimits_of_readHeader {plaintext out headerBytes frames : Bytes}
    {ownerPk : FixedBytes 32} {signer : SigningKeys} {opts : SealOptions} {rng : SealRandom} {h : Header}
    (s : SealedAs P plaintext ownerPk signer opts rng h out headerBytes frames) (hP : P.Lawful)
    {r : Reader} (hrest : r.rest = out) {found : Header × HeaderHash × Reader}
    (hread : readHeader P r = .ok found) : opts.WithinLimits := by
  rw [← validateHeader_iff_withinLimits hP s.header s.chunkPos s.chunkMax]
  obtain ⟨r', heq, -⟩ := readHeader_containerHead_eq hP s.encoded (Header.verify_sign hP s.header.signed)
    (hrest.trans s.out_eq)
  rw [heq] at hread
  cases hvalid : validateHeader h with
  | ok => rfl
  | error e =>
      rw [hvalid] at hread
      cases hread

theorem SealedAs.readable_iff {plaintext out headerBytes frames : Bytes} {ownerPk : FixedBytes 32}
    {signer : SigningKeys} {opts : SealOptions} {rng : SealRandom} {h : Header}
    (s : SealedAs P plaintext ownerPk signer opts rng h out headerBytes frames) (hP : P.Lawful) :
    Readable P out ↔ opts.WithinLimits := by
  constructor
  · intro hreadable
    obtain ⟨found, hfound⟩ := hreadable fun _ => 0
    exact s.withinLimits_of_readHeader hP (Reader.rest_ofData out fun _ => 0) hfound
  · intro hopts offer
    obtain ⟨r, hread, -⟩ := s.readHeader_eq hP hopts (Reader.rest_ofData out offer)
    exact ⟨_, hread⟩

-- What `seal` and `seal_to_path` write, the reader takes exactly if the options keep the
-- limits on the owner account, on the recipients and on the version continued.
theorem seal_readable_iff (hP : P.Lawful) (owner : OwnerKeys P) (opts : SealOptions) :
    (∀ input sink rng h out, sealContainer P input sink owner opts rng = .ok (h, out) →
      (Readable P out ↔ opts.WithinLimits)) ∧
    ∀ inPath outPath rng env fs h fs',
      sealToPath P inPath outPath owner opts rng env fs = (.ok h, fs') →
      ∃ out, fs'.readFile outPath = some out ∧ (Readable P out ↔ opts.WithinLimits) := by
  constructor
  · intro input sink rng h out hseal
    obtain ⟨headerBytes, frames, s⟩ := sealSigned_eq_ok hseal
    exact s.readable_iff hP
  · intro inPath outPath rng env fs h fs' hseal
    obtain ⟨plaintext, out, headerBytes, frames, -, -, s, hthere⟩ := sealSignedToPath_eq_ok hseal
    exact ⟨out, hthere, s.readable_iff hP⟩

namespace Reference

theorem seal_readable_two_recipients : ∃ h out, sealContainer primitives input .memory owner options
    draws = .ok (h, out) ∧ options.WithinLimits ∧ Readable primitives out := by
  obtain ⟨h, out, hseal⟩ := sealSigned_ok primitives_lawful options_sealable.accepted input
    Sink.memory_total owner.sealing.validKey owner.signing draws
  exact ⟨h, out, hseal, options_sealable.withinLimits,
    ((seal_readable_iff primitives_lawful owner options).1 _ _ _ h out hseal).mpr
      options_sealable.withinLimits⟩

-- No owner account at all.
def unowned : SealOptions := { options with ownerAccount := [] }

theorem unowned_accepted : unowned.Accepted primitives :=
  { options_sealable.accepted with small := by decide }

theorem seal_unreadable :
    ¬∀ (P : Primitives), P.Lawful → ∀ (owner : OwnerKeys P) (opts : SealOptions),
      (∀ input sink rng h out, sealContainer P input sink owner opts rng = .ok (h, out) →
        Readable P out) ∧
      ∀ inPath outPath rng env fs h fs',
        sealToPath P inPath outPath owner opts rng env fs = (.ok h, fs') →
        ∃ out, fs'.readFile outPath = some out ∧ Readable P out := by
  intro hall
  obtain ⟨h, out, hseal⟩ := sealSigned_ok primitives_lawful unowned_accepted input
    Sink.memory_total owner.sealing.validKey owner.signing draws
  obtain ⟨headerBytes, frames, s⟩ := sealSigned_eq_ok hseal
  have hreadable := (hall primitives primitives_lawful owner unowned).1 _ _ _ h out hseal
  exact absurd ((s.readable_iff primitives_lawful).mp hreadable).ownerPos (by decide)

end Reference

end Zbacs.Core
