import Zbacs.Core.Primitives

namespace Zbacs.Core

open Zbacs.Lib

namespace Envelope

variable {P : Primitives}

-- `Envelope::seal`; `seed` is the HPKE sender's randomness.
def sealDek (P : Primitives) (recipientPk : Bytes) (dek : Dek) (aad seed : Bytes) :
    Result Envelope :=
  match P.hpke.sealTo recipientPk dekInfo aad dek.bytes seed with
  | none => .error .envelopeSeal
  | some (enc, ct) => .ok ⟨keyIdOf P recipientPk, algHpkeX25519ChaCha, enc, ct⟩

-- `Envelope::open`
def openDek (e : Envelope) (keys : DeviceKeys P) (aad : Bytes) : Result Dek :=
  if e.alg ≠ algHpkeX25519ChaCha then .error .envelopeOpen
  else match P.hpke.openWith e.enc keys.x25519Sk.bytes dekInfo aad e.ct with
    | none => .error .envelopeOpen
    | some pt => match FixedBytes.ofBytes? 32 pt with
      | none => .error .keyLength
      | some dek => .ok dek

theorem sealDek_ok (hP : P.Lawful) (pk : Bytes) (dek : Dek) (aad seed : Bytes)
    (hpk : P.hpke.ValidKey pk) :
    ∃ e, sealDek P pk dek aad seed = .ok e ∧ e.kid = keyIdOf P pk ∧
      e.alg = algHpkeX25519ChaCha ∧ e.enc.length = 32 ∧ e.ct.length = 48 := by
  obtain ⟨enc, ct, he⟩ := hP.hpke.seals pk dekInfo aad dek.bytes seed hpk
  have hlen := hP.hpke.lengths he
  refine ⟨⟨keyIdOf P pk, algHpkeX25519ChaCha, enc, ct⟩, by simp [sealDek, he], rfl, rfl, hlen.1, ?_⟩
  simpa [tagLen] using hlen.2

theorem sealDek_eq_ok {pk : Bytes} {dek : Dek} {aad seed : Bytes} {e : Envelope}
    (h : sealDek P pk dek aad seed = .ok e) :
    e.kid = keyIdOf P pk ∧ e.alg = algHpkeX25519ChaCha ∧
      P.hpke.sealTo pk dekInfo aad dek.bytes seed = some (e.enc, e.ct) := by
  unfold sealDek at h
  split at h
  · cases h
  · rename_i enc ct he
    cases h
    exact ⟨rfl, rfl, he⟩

theorem openDek_eq_ok {e : Envelope} {keys : DeviceKeys P} {aad : Bytes} {dek : Dek} :
    e.openDek keys aad = .ok dek ↔ e.alg = algHpkeX25519ChaCha ∧
      P.hpke.openWith e.enc keys.x25519Sk.bytes dekInfo aad e.ct = some dek.bytes := by
  unfold openDek
  constructor
  · intro h
    split at h
    · cases h
    · rename_i halg
      split at h
      · cases h
      · rename_i pt hpt
        split at h
        · cases h
        · rename_i d hd
          cases h
          exact ⟨not_not.mp halg, by rw [hpt, FixedBytes.ofBytes?_eq_some.mp hd]⟩
  · rintro ⟨halg, hopen⟩
    simp [halg, hopen]

-- The holder of the recipient's secret gets the wrapped DEK back.
theorem openDek_sealDek (hP : P.Lawful) {keys : DeviceKeys P} {dek : Dek} {aad seed : Bytes}
    {e : Envelope} (h : sealDek P keys.x25519Pk.bytes dek aad seed = .ok e) :
    e.openDek keys aad = .ok dek := by
  obtain ⟨_, halg, hseal⟩ := sealDek_eq_ok h
  rw [keys.pk_eq] at hseal
  exact openDek_eq_ok.mpr ⟨halg, hP.hpke.open_seal hseal⟩

end Envelope

end Zbacs.Core
