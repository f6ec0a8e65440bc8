import Zbacs.Agent.Setup.Steps
import Zbacs.Agent.Setup.Wire
import Zbacs.Core.Reference

namespace Zbacs.Agent.Setup

open Zbacs.Lib Zbacs.Core Attempt

-- Whether the keys in use are those of the profile.

namespace Steps

section Calls

variable {entry : KeyEntry} {s s' : Storage}

@[simp] theorem get_succeeds {found : Option Bytes} :
    Succeeds (attempt (ask (.get entry))) s found s' ↔ found = s.keys entry ∧ s' = s := by
  refine Script.runs_ask.trans ⟨fun ⟨hs, hfound⟩ => ⟨hfound found rfl, hs⟩, fun ⟨hfound, hs⟩ => ⟨hs, ?_⟩⟩
  rintro _ ⟨⟩
  exact hfound

@[simp] theorem put_succeeds {secret : Bytes} {x : Unit} :
    Succeeds (attempt (ask (.put entry secret))) s x s' ↔ s' = SetupCall.stored s entry secret := by
  refine Script.runs_ask.trans ⟨fun h => ?_, .inl⟩
  obtain h | ⟨-, herror⟩ := h
  · exact h
  · exact absurd rfl herror

@[simp] theorem random_succeeds {fresh : FixedBytes 32} :
    Succeeds (ExceptT.lift (ask .random) : SetupM (FixedBytes 32)) s fresh s' ↔ s' = s :=
  succeeds_lift.trans Script.runs_ask

@[simp] theorem profileExists_succeeds {there : Bool} :
    Succeeds (ExceptT.lift (ask .profileExists) : SetupM Bool) s there s' ↔
      s' = s ∧ (there = true → s.profile ≠ none) := succeeds_lift.trans Script.runs_ask

end Calls

section Keys

variable {P : Primitives} {entry : KeyEntry} {s s' : Storage}

theorem secret_succeeds {secret : Bytes} : Succeeds (Steps.secret entry) s secret s' ↔
    s.keys entry = some secret ∧ s' = s ∨
      s.keys entry = none ∧ secret.length = 32 ∧ s' = SetupCall.stored s entry secret := by
  simp only [Steps.secret, succeeds_bind, get_succeeds]
  cases hkey : s.keys entry with
  | some found => simp [eq_comm]
  | none =>
      constructor
      · rintro ⟨_, _, ⟨rfl, rfl⟩, h⟩
        simp only [succeeds_bind, random_succeeds, put_succeeds, succeeds_pure] at h
        obtain ⟨fresh, _, rfl, _, _, rfl, rfl, rfl⟩ := h
        exact .inr ⟨rfl, fresh.length_eq, rfl⟩
      · rintro (⟨⟨⟩, -⟩ | ⟨-, hlength, rfl⟩)
        refine ⟨none, s, ⟨rfl, rfl⟩, ?_⟩
        simp only [succeeds_bind, random_succeeds, put_succeeds, succeeds_pure]
        exact ⟨⟨secret, hlength⟩, s, rfl, (), _, rfl, rfl, rfl⟩

-- The key under an entry: the one that is there, or one that is put there.
def Fetched (entry : KeyEntry) (s : Storage) (sk : FixedBytes 32) (s' : Storage) : Prop :=
  s.keys entry = some sk.bytes ∧ s' = s ∨ s.keys entry = none ∧ s' = SetupCall.stored s entry sk.bytes

theorem secretKey_succeeds {sk : FixedBytes 32} :
    Succeeds (Steps.secretKey entry) s sk s' ↔ Fetched entry s sk s' := by
  simp only [Steps.secretKey, succeeds_bind, secret_succeeds]
  constructor
  · rintro ⟨secret, s₁, hsecret, hkey⟩
    cases hbytes : FixedBytes.ofBytes? 32 secret with
    | none =>
        simp only [hbytes, succeeds_throw] at hkey
    | some sk' =>
        simp only [hbytes, succeeds_pure] at hkey
        obtain ⟨rfl, rfl⟩ := hkey
        obtain rfl := FixedBytes.ofBytes?_eq_some.mp hbytes
        exact hsecret.imp_right fun h => ⟨h.1, h.2.2⟩
  · intro h
    refine ⟨sk.bytes, s', h.imp_right fun h => ⟨h.1, sk.length_eq, h.2⟩, ?_⟩
    simp

@[simp] theorem x25519_succeeds {keys : DeviceKeys P} :
    Succeeds (Steps.x25519 P entry) s keys s' ↔ ∃ sk, keys = .fromSecret sk ∧ Fetched entry s sk s' := by
  simp only [Steps.x25519, succeeds_bind, succeeds_pure, secretKey_succeeds]
  constructor
  · rintro ⟨sk, s₁, h, rfl, rfl⟩
    exact ⟨sk, rfl, h⟩
  · rintro ⟨sk, rfl, h⟩
    exact ⟨sk, s', h, rfl, rfl⟩

@[simp] theorem ed25519_succeeds {keys : SigningKeys} :
    Succeeds (Steps.ed25519 entry) s keys s' ↔ Fetched entry s keys.sk s' := by
  simp only [Steps.ed25519, succeeds_bind, succeeds_pure, secretKey_succeeds]
  constructor
  · rintro ⟨sk, s₁, h, rfl, rfl⟩
    exact h
  · exact fun h => ⟨keys.sk, s', h, rfl, rfl⟩

theorem whenSetUp_succeeds {α : Type} {act : SetupM α} {a : α} :
    Succeeds (do
      if !(← (ExceptT.lift (ask .profileExists) : SetupM Bool)) then throw notSetUp
      act) s a s' ↔ s.profile ≠ none ∧ Succeeds act s a s' := by
  simp only [succeeds_bind, profileExists_succeeds]
  constructor
  · rintro ⟨there, _, ⟨rfl, hthere⟩, h⟩
    cases there with
    | false => simp at h
    | true => exact ⟨hthere rfl, by simpa using h⟩
  · rintro ⟨hthere, h⟩
    exact ⟨true, s, ⟨rfl, fun _ => hthere⟩, by simpa using h⟩

-- A call for two keys asks for the one after the other.
theorem pair_succeeds {β : Type} {mk : DeviceKeys P → SigningKeys → β} {x ed : KeyEntry} {keys : β} :
    Succeeds (do
      if !(← (ExceptT.lift (ask .profileExists) : SetupM Bool)) then throw notSetUp
      return mk (← x25519 P x) (← ed25519 ed)) s keys s' ↔
    s.profile ≠ none ∧ ∃ sk s₁ signing, keys = mk (.fromSecret sk) signing ∧ Fetched x s sk s₁ ∧
      Fetched ed s₁ signing.sk s' := by
  refine whenSetUp_succeeds.trans (and_congr_right' ?_)
  simp only [succeeds_bind, x25519_succeeds, ed25519_succeeds, succeeds_pure]
  constructor
  · rintro ⟨_, s₁, ⟨sk, rfl, hx⟩, signing, _, hed, rfl, rfl⟩
    exact ⟨sk, s₁, signing, rfl, hx, hed⟩
  · rintro ⟨sk, s₁, signing, rfl, hx, hed⟩
    exact ⟨.fromSecret sk, s₁, ⟨sk, rfl, hx⟩, signing, s', hed, rfl, rfl⟩

end Keys

end Steps

section Pair

variable {s : Storage} {x ed : KeyEntry} {ofX ofEd : FixedBytes 32 → FixedBytes 32}
variable {pubX pubEd : FixedBytes 32}

-- A call for the two keys gives those with these public halves, and puts nothing in the key store.
def PairKept (s : Storage) (x ed : KeyEntry) (ofX ofEd : FixedBytes 32 → FixedBytes 32)
    (pubX pubEd : FixedBytes 32) : Prop :=
  ∀ skX s₁ skEd s', Steps.Fetched x s skX s₁ → Steps.Fetched ed s₁ skEd s' →
    ofX skX = pubX ∧ ofEd skEd = pubEd ∧ s'.keys = s.keys

-- The secret with that public half is under the entry.
def There (s : Storage) (entry : KeyEntry) (publicKey : FixedBytes 32 → FixedBytes 32)
    (pub : FixedBytes 32) : Prop := ∃ sk, s.keys entry = some sk.bytes ∧ publicKey sk = pub

-- What is under the entry is no key, and a call for it fails.
def Unusable (s : Storage) (entry : KeyEntry) : Prop :=
  ∃ secret, s.keys entry = some secret ∧ secret.length ≠ 32

theorem not_fetched_of_unusable (h : Unusable s ed) {sk : FixedBytes 32} {s' : Storage} :
    ¬ Steps.Fetched ed s sk s' := by
  obtain ⟨secret, hsecret, hlength⟩ := h
  rintro (⟨hkey, -⟩ | ⟨hnone, -⟩)
  · rw [hsecret] at hkey
    exact hlength (Option.some.inj hkey ▸ sk.length_eq)
  · cases hsecret.symm.trans hnone

-- Unless it is unusable, something can be had for an entry.
theorem exists_fetched (h : ¬ Unusable s x) : ∃ sk s', Steps.Fetched x s sk s' := by
  cases hkey : s.keys x with
  | none => exact ⟨.replicate 32 0, _, .inr ⟨hkey, rfl⟩⟩
  | some secret =>
      have hlength : secret.length = 32 := by
        by_contra hne
        exact h ⟨secret, hkey, hne⟩
      exact ⟨⟨secret, hlength⟩, s, .inl ⟨hkey, rfl⟩⟩

theorem keys_of_fetched {sk : FixedBytes 32} {s' : Storage} (h : Steps.Fetched x s sk s') :
    s'.keys x = some sk.bytes ∧ ∀ entry ≠ x, s'.keys entry = s.keys entry := by
  obtain ⟨hkey, rfl⟩ | ⟨-, rfl⟩ := h
  · exact ⟨hkey, fun _ _ => rfl⟩
  · exact ⟨if_pos rfl, fun entry hne => if_neg hne⟩

theorem pairKept_iff (hne : x ≠ ed) : PairKept s x ed ofX ofEd pubX pubEd ↔
    (There s x ofX pubX ∧ There s ed ofEd pubEd) ∨ Unusable s x ∨ Unusable s ed := by
  constructor
  · intro h
    by_contra hnot
    obtain ⟨hthere, hx, hed⟩ := not_or.mp hnot |>.imp_right not_or.mp
    obtain ⟨skX, s₁, hfetchX⟩ := exists_fetched hx
    have hkeys := keys_of_fetched hfetchX
    have hed₁ : ¬ Unusable s₁ ed := by
      rintro ⟨secret, hsecret, hlength⟩
      exact hed ⟨secret, (hkeys.2 ed hne.symm).symm.trans hsecret, hlength⟩
    obtain ⟨skEd, s', hfetchEd⟩ := exists_fetched hed₁
    have hkeys' := keys_of_fetched hfetchEd
    obtain ⟨hpubX, hpubEd, hsame⟩ := h skX s₁ skEd s' hfetchX hfetchEd
    refine hthere ⟨⟨skX, ?_, hpubX⟩, skEd, ?_, hpubEd⟩
    · rw [← hsame, hkeys'.2 x hne, hkeys.1]
    · rw [← hsame, hkeys'.1]
  · rintro (⟨⟨skX, hskX, hpubX⟩, skEd, hskEd, hpubEd⟩ | hx | hed) skX' s₁ skEd' s' hfetchX hfetchEd
    · obtain ⟨hkeyX, rfl⟩ | ⟨hnone, -⟩ := hfetchX
      · obtain ⟨hkeyEd, rfl⟩ | ⟨hnone, -⟩ := hfetchEd
        · obtain rfl := FixedBytes.ext (Option.some.inj (hskX.symm.trans hkeyX))
          obtain rfl := FixedBytes.ext (Option.some.inj (hskEd.symm.trans hkeyEd))
          exact ⟨hpubX, hpubEd, rfl⟩
        · cases hskEd.symm.trans hnone
      · cases hskX.symm.trans hnone
    · exact absurd hfetchX (not_fetched_of_unusable hx)
    · refine absurd hfetchEd (not_fetched_of_unusable ?_)
      obtain ⟨secret, hsecret, hlength⟩ := hed
      exact ⟨secret, ((keys_of_fetched hfetchX).2 ed hne.symm).trans hsecret, hlength⟩

end Pair

section Profile

variable (P : Primitives) (C : Codec DeviceProfile)

-- The keys a call gives are those the profile names, and the key store is as it was.
def KeysOfProfile (s : Storage) : Prop :=
  ∀ p, s.stored C = some p →
    (∀ keys s', Succeeds (Steps.ownerKeys P) s keys s' → keys.sealing.x25519Pk = p.ownerSealingPub ∧
      keys.signing.verifyingKey P = p.ownerSigningPub ∧ s'.keys = s.keys) ∧
    ∀ keys s', Succeeds (Steps.deviceKeys P) s keys s' → keys.envelope.x25519Pk = p.deviceX25519Pub ∧
      keys.signing.verifyingKey P = p.deviceEd25519Pub ∧ s'.keys = s.keys

-- The secrets of the profile are in the key store, or one of the two that a call needs is no key.
def KeysThere (s : Storage) : Prop :=
  ∀ p, s.stored C = some p →
    (There s .ownerSealing P.hpke.publicKey p.ownerSealingPub ∧
        There s .ownerSigning P.ed25519.publicKey p.ownerSigningPub ∨
      Unusable s .ownerSealing ∨ Unusable s .ownerSigning) ∧
    (There s .deviceX25519 P.hpke.publicKey p.deviceX25519Pub ∧
        There s .deviceEd25519 P.ed25519.publicKey p.deviceEd25519Pub ∨
      Unusable s .deviceX25519 ∨ Unusable s .deviceEd25519)

variable {P C} {s : Storage} {p : DeviceProfile}

theorem profile_of_stored (h : s.stored C = some p) : s.profile ≠ none := by
  intro hnone
  simp [Storage.stored, hnone] at h

theorem pairKept_of_pair {β : Type} {mk : DeviceKeys P → SigningKeys → β} {x ed : KeyEntry}
    {pubX pubEd : FixedBytes 32} {good : β → Storage → Prop} (h : s.profile ≠ none)
    (hgood : ∀ skX skEd s', good (mk (.fromSecret skX) ⟨skEd⟩) s' ↔
      P.hpke.publicKey skX = pubX ∧ P.ed25519.publicKey skEd = pubEd ∧ s'.keys = s.keys) :
    (∀ keys s', Succeeds (do
      if !(← (ExceptT.lift (Steps.ask .profileExists) : SetupM Bool)) then throw Steps.notSetUp
      return mk (← Steps.x25519 P x) (← Steps.ed25519 ed)) s keys s' → good keys s') ↔
    PairKept s x ed P.hpke.publicKey P.ed25519.publicKey pubX pubEd := by
  constructor
  · intro hkeys skX s₁ skEd s' hX hEd
    refine (hgood skX skEd s').mp (hkeys _ s' ?_)
    exact Steps.pair_succeeds.mpr ⟨h, skX, s₁, ⟨skEd⟩, rfl, hX, hEd⟩
  · intro hkept keys s' hkeys
    obtain ⟨-, skX, s₁, signing, rfl, hX, hEd⟩ := Steps.pair_succeeds.mp hkeys
    exact (hgood skX signing.sk s').mpr (hkept skX s₁ signing.sk s' hX hEd)

theorem ownerKeys_pairKept (h : s.profile ≠ none) : (∀ keys s', Succeeds (Steps.ownerKeys P) s keys s' →
    keys.sealing.x25519Pk = p.ownerSealingPub ∧ keys.signing.verifyingKey P = p.ownerSigningPub ∧
      s'.keys = s.keys) ↔ PairKept s .ownerSealing .ownerSigning P.hpke.publicKey P.ed25519.publicKey
        p.ownerSealingPub p.ownerSigningPub :=
  pairKept_of_pair h fun _ _ _ => Iff.rfl

theorem deviceKeys_pairKept (h : s.profile ≠ none) : (∀ keys s', Succeeds (Steps.deviceKeys P) s keys s' →
    keys.envelope.x25519Pk = p.deviceX25519Pub ∧ keys.signing.verifyingKey P = p.deviceEd25519Pub ∧
      s'.keys = s.keys) ↔ PairKept s .deviceX25519 .deviceEd25519 P.hpke.publicKey P.ed25519.publicKey
        p.deviceX25519Pub p.deviceEd25519Pub :=
  pairKept_of_pair h fun _ _ _ => Iff.rfl

variable (P C s)

-- That the profile exists is all a call asks for: what is not in the key store is made anew.
theorem keysOfProfile_iff : KeysOfProfile P C s ↔ KeysThere P C s := by
  refine forall_congr' fun p => forall_congr' fun hstored => and_congr ?_ ?_
  · exact (ownerKeys_pairKept (profile_of_stored hstored)).trans (pairKept_iff (by decide))
  · exact (deviceKeys_pairKept (profile_of_stored hstored)).trans (pairKept_iff (by decide))

end Profile

namespace Reference

def setUpProfile : DeviceProfile :=
  { schema := profileSchema
    style := .thisDevice
    signer := .deviceKey
    keyId := .replicate 32 1
    publicKey := some ⟨.replicate 32 2, .replicate 32 3⟩
    credential := []
    requireOsConfirm := false
    hardwareBacked := true
    deviceX25519Pub := .replicate 32 4
    deviceEd25519Pub := .replicate 32 5
    ownerSealingPub := .replicate 32 6
    ownerSigningPub := .replicate 32 7
    account := none
    enrolledOnChain := false
    createdAt := 100 }

theorem setUpProfile_size : profileWire.size setUpProfile < 2 ^ 64 := by
  decide

-- The profile is there, and the keychain was reset.
def resetStorage : Storage := ⟨fun _ => none, some (profileWire.put setUpProfile), none⟩

theorem resetStorage_stored : resetStorage.stored profileWire.codec = some setUpProfile := by
  rw [Storage.stored, resetStorage, Option.bind_eq_bind, Option.bind_some,
    profileWire.decode_put setUpProfile setUpProfile_size]
  rfl

theorem not_keysOfProfile : ¬ KeysOfProfile Core.Reference.primitives profileWire.codec resetStorage := by
  intro h
  have howner := (ownerKeys_pairKept (profile_of_stored resetStorage_stored)).mp (h _ resetStorage_stored).1
  obtain ⟨⟨_, hnone, -⟩, -⟩ | ⟨_, hnone, -⟩ | ⟨_, hnone, -⟩ := (pairKept_iff (by decide)).mp howner
  all_goals cases hnone

end Reference

end Zbacs.Agent.Setup
