import Zbacs.Agent.Setup.Keys

namespace Zbacs.Agent.Setup

open Zbacs.Lib Zbacs.Core Attempt

-- One machine, one identity: whatever is called, fails or is stopped, and in whatever order.

variable (P : Primitives) (C : Codec DeviceProfile)

-- The long-lived secrets behind a profile are in the key store.
structure Backing (s : Storage) (p : DeviceProfile) : Prop where
  deviceX25519 : There s .deviceX25519 P.hpke.publicKey p.deviceX25519Pub
  deviceEd25519 : There s .deviceEd25519 P.ed25519.publicKey p.deviceEd25519Pub
  ownerSealing : There s .ownerSealing P.hpke.publicKey p.ownerSealingPub
  ownerSigning : There s .ownerSigning P.ed25519.publicKey p.ownerSigningPub

-- A later profile: the account may have been added, and nothing else is different.
def Succeeding (p p' : DeviceProfile) : Prop :=
  p' = { p with account := p'.account } ∧ (p.account = none ∨ p'.account = p.account)

-- What an identity asks of an earlier state and a later one.
structure IdentityKept (s s' : Storage) : Prop where
  keys : ∀ entry secret, s.keys entry = some secret → s'.keys entry = some secret
  profile : ∀ p, s.stored C = some p → ∃ p', s'.stored C = some p' ∧ Succeeding p p'
  -- the first profile names the secrets that are there, those of an interrupted run among them
  reused : s.stored C = none → ∀ p, s'.stored C = some p → Backing P s' p

variable {P C}

theorem There.mono {s s' : Storage} {entry : KeyEntry} {publicKey : FixedBytes 32 → FixedBytes 32}
    {pub : FixedBytes 32} (h : There s entry publicKey pub)
    (hkeys : ∀ entry secret, s.keys entry = some secret → s'.keys entry = some secret) :
    There s' entry publicKey pub := by
  obtain ⟨sk, hsk, hpub⟩ := h
  exact ⟨sk, hkeys entry _ hsk, hpub⟩

theorem Backing.mono {s s' : Storage} {p : DeviceProfile} (h : Backing P s p)
    (hkeys : ∀ entry secret, s.keys entry = some secret → s'.keys entry = some secret) : Backing P s' p :=
  ⟨h.deviceX25519.mono hkeys, h.deviceEd25519.mono hkeys, h.ownerSealing.mono hkeys,
    h.ownerSigning.mono hkeys⟩

theorem Succeeding.trans {p p' p'' : DeviceProfile} (h : Succeeding p p') (h' : Succeeding p' p'') :
    Succeeding p p'' := by
  obtain ⟨hsame, haccount⟩ := h
  obtain ⟨hsame', haccount'⟩ := h'
  refine ⟨?_, ?_⟩
  · rw [hsame', hsame]
  · obtain hnone | hp := haccount
    · exact .inl hnone
    · obtain hnone' | hp' := haccount'
      · exact .inl (hp ▸ hnone')
      · exact .inr (hp'.trans hp)

-- The account does not matter for the keys.
theorem Backing.succeeding {s : Storage} {p p' : DeviceProfile} (h : Backing P s p)
    (hnext : Succeeding p p') : Backing P s p' := by
  rw [hnext.1]
  exact ⟨h.deviceX25519, h.deviceEd25519, h.ownerSealing, h.ownerSigning⟩

namespace IdentityKept

variable {s s' s'' : Storage}

theorem refl (s : Storage) : IdentityKept P C s s where
  keys _ _ h := h
  profile p hp := ⟨p, hp, rfl, .inr rfl⟩
  reused hnone p hp := by cases hnone.symm.trans hp

theorem trans (h : IdentityKept P C s s') (h' : IdentityKept P C s' s'') : IdentityKept P C s s'' where
  keys entry secret hkey := h'.keys entry secret (h.keys entry secret hkey)
  profile p hp := by
    obtain ⟨p', hp', hnext⟩ := h.profile p hp
    obtain ⟨p'', hp'', hnext'⟩ := h'.profile p' hp'
    exact ⟨p'', hp'', hnext.trans hnext'⟩
  reused hnone p hp := by
    cases hmiddle : s'.stored C with
    | none => exact h'.reused hmiddle p hp
    | some q =>
        obtain ⟨p', hp', hnext⟩ := h'.profile q hmiddle
        obtain rfl := Option.some.inj (hp'.symm.trans hp)
        exact ((h.reused hnone q hmiddle).mono h'.keys).succeeding hnext

theorem stored_congr (h : s'.profile = s.profile) : s'.stored C = s.stored C := by
  rw [Storage.stored, h, Storage.stored]

-- More secrets, and the same profile.
theorem of_profile_eq (h : s'.profile = s.profile)
    (hkeys : ∀ entry secret, s.keys entry = some secret → s'.keys entry = some secret) :
    IdentityKept P C s s' where
  keys := hkeys
  profile p hp := ⟨p, (stored_congr h).trans hp, rfl, .inr rfl⟩
  reused hnone p hp := by cases (hnone.symm.trans (stored_congr h).symm).trans hp

end IdentityKept

-- What each part of a call does, with the identity of `s₀` kept at every step of it.

section Parts

variable {s₀ s : Storage} {entry : KeyEntry} {inv failed : Storage → Prop}

-- The file with the profile is left alone, and the secrets that are there stay.
def Grown (s s' : Storage) : Prop :=
  s'.profile = s.profile ∧ ∀ entry secret, s.keys entry = some secret → s'.keys entry = some secret

theorem Grown.refl (s : Storage) : Grown s s := ⟨rfl, fun _ _ h => h⟩

theorem Grown.trans {s' s'' : Storage} (h : Grown s s') (h' : Grown s' s'') : Grown s s'' :=
  ⟨h'.1.trans h.1, fun entry secret hkey => h'.2 entry secret (h.2 entry secret hkey)⟩

theorem Grown.kept {s' : Storage} (hs : IdentityKept P C s₀ s) (h : Grown s s') : IdentityKept P C s₀ s' :=
  hs.trans (.of_profile_eq h.1 h.2)

-- A call that only asks.
theorem attempt_quiet {α : Type} {prog : Script setupService (Except SetupError α)}
    (h : Script.Holds inv (fun _ s' => s' = s) prog s) :
    Ends inv (fun _ s' => s' = s) (fun s' => s' = s) (Steps.attempt prog) s := by
  refine Script.Holds.mono h fun r s' _ hsame => ?_
  cases r <;> exact hsame

theorem ask_quiet {c : SetupCall} (hs : inv s) (hquiet : ∀ x s', c.Does s x s' → s' = s) :
    Script.Holds inv (fun _ s' => s' = s) (Steps.ask c) s :=
  Script.Holds.ask hs fun x s' hdoes => by
    obtain rfl := hquiet x s' hdoes
    exact ⟨hs, rfl⟩

theorem get_ends (hs : inv s) :
    Ends inv (fun found s' => s' = s ∧ found = s.keys entry) (fun s' => s' = s)
      (Steps.attempt (Steps.ask (.get entry))) s := by
  refine Script.Holds.ask (S := setupService) (c := .get entry) hs fun x s' hdoes => ?_
  obtain ⟨rfl, hfound⟩ := hdoes
  refine ⟨hs, ?_⟩
  cases x with
  | ok found => exact ⟨rfl, hfound found rfl⟩
  | error e => rfl

-- A secret is put under an entry that has none.
theorem grown_stored (hnone : s.keys entry = none) (secret : Bytes) :
    Grown s (SetupCall.stored s entry secret) := by
  refine ⟨rfl, fun e b hkey => ?_⟩
  have hne : e ≠ entry := by
    rintro rfl
    cases hnone.symm.trans hkey
  exact (if_neg hne).trans hkey

theorem put_ends (hs : IdentityKept P C s₀ s) (hnone : s.keys entry = none) (secret : Bytes) :
    Ends (IdentityKept P C s₀) (fun _ s' => s'.keys entry = some secret ∧ Grown s s') (Grown s)
      (Steps.attempt (Steps.ask (.put entry secret))) s := by
  have hgrown := grown_stored hnone secret
  refine Script.Holds.ask (S := setupService) (c := .put entry secret) hs fun x s' hdoes => ?_
  obtain rfl | ⟨rfl, herror⟩ := hdoes
  · refine ⟨hgrown.kept hs, ?_⟩
    cases x with
    | ok u => exact ⟨if_pos rfl, hgrown⟩
    | error e => exact hgrown
  · refine ⟨hs, ?_⟩
    cases x with
    | ok u => exact absurd rfl herror
    | error e => exact .refl s'

theorem secret_ends (hs : IdentityKept P C s₀ s) :
    Ends (IdentityKept P C s₀) (fun secret s' => s'.keys entry = some secret ∧ Grown s s') (Grown s)
      (Steps.secret entry) s := by
  refine Ends.bind ((get_ends hs).mono (fun _ _ _ h => h) fun s' _ h => h ▸ .refl s) ?_
  rintro found s' hinv ⟨rfl, rfl⟩
  cases hkey : s'.keys entry with
  | some secret => exact Ends.pure hinv ⟨hkey, .refl s'⟩
  | none =>
      refine Ends.bind (Ends.lift (ask_quiet (c := .random) hinv fun _ _ h => h)) ?_
      rintro fresh s'' hinv' rfl
      exact Ends.bind (put_ends hinv' hkey fresh.bytes) fun _ _ hinv'' h => Ends.pure hinv'' h

theorem secretKey_ends (hs : IdentityKept P C s₀ s) :
    Ends (IdentityKept P C s₀) (fun sk s' => s'.keys entry = some sk.bytes ∧ Grown s s') (Grown s)
      (Steps.secretKey entry) s := by
  refine Ends.bind (secret_ends hs) ?_
  rintro secret s' hinv ⟨hkey, hgrown⟩
  cases hbytes : FixedBytes.ofBytes? 32 secret with
  | none =>
      exact Ends.throw hinv hgrown
  | some sk =>
      obtain rfl := FixedBytes.ofBytes?_eq_some.mp hbytes
      exact Ends.pure hinv ⟨hkey, hgrown⟩

theorem x25519_ends (hs : IdentityKept P C s₀ s) : Ends (IdentityKept P C s₀)
    (fun keys s' => There s' entry P.hpke.publicKey keys.x25519Pk ∧ Grown s s') (Grown s)
      (Steps.x25519 P entry) s :=
  Ends.bind (secretKey_ends hs) fun sk _ hinv h => Ends.pure hinv ⟨⟨sk, h.1, rfl⟩, h.2⟩

theorem ed25519_ends (hs : IdentityKept P C s₀ s) : Ends (IdentityKept P C s₀)
    (fun keys s' => There s' entry P.ed25519.publicKey (keys.verifyingKey P) ∧ Grown s s') (Grown s)
      (Steps.ed25519 entry) s :=
  Ends.bind (secretKey_ends hs) fun sk _ hinv h => Ends.pure hinv ⟨⟨sk, h.1, rfl⟩, h.2⟩

-- Whatever the signer will be, the profile is backed.
theorem longLivedKeys_ends (hs : IdentityKept P C s₀ s) : Ends (IdentityKept P C s₀)
    (fun keys s' => (∀ style now created, Backing P s' (Steps.firstProfile style now keys created)) ∧
      Grown s s') (Grown s) (Steps.longLivedKeys P) s := by
  refine Ends.bind (x25519_ends hs) ?_
  rintro deviceX s₁ hinv₁ ⟨hdeviceX, hgrown₁⟩
  refine Ends.bind ((ed25519_ends hinv₁).mono (fun _ _ _ h => h) fun _ _ h => hgrown₁.trans h) ?_
  rintro deviceEd s₂ hinv₂ ⟨hdeviceEd, hgrown₂⟩
  have hgrown₂' := hgrown₁.trans hgrown₂
  refine Ends.bind ((x25519_ends hinv₂).mono (fun _ _ _ h => h) fun _ _ h => hgrown₂'.trans h) ?_
  rintro ownerSealing s₃ hinv₃ ⟨hsealing, hgrown₃⟩
  have hgrown₃' := hgrown₂'.trans hgrown₃
  refine Ends.bind ((ed25519_ends hinv₃).mono (fun _ _ _ h => h) fun _ _ h => hgrown₃'.trans h) ?_
  rintro ownerSigning s₄ hinv₄ ⟨hsigning, hgrown₄⟩
  refine Ends.pure hinv₄ ⟨fun style now created => ⟨?_, ?_, ?_, hsigning⟩, hgrown₃'.trans hgrown₄⟩
  · exact hdeviceX.mono ((hgrown₂.trans hgrown₃).trans hgrown₄).2
  · exact hdeviceEd.mono (hgrown₃.trans hgrown₄).2
  · exact hsealing.mono hgrown₄.2

-- Answers only.

theorem pendingFor_ends {p : DeviceProfile} (hs : inv s) :
    Ends inv (fun _ s' => s' = s) failed (Steps.pendingFor p) s := by
  refine Ends.bind (Ends.lift (ask_quiet (c := .capabilities) hs fun _ _ h => h)) ?_
  exact fun _ _ hinv h => Ends.pure hinv h

theorem profile_ends (hs : inv s) : Ends inv
    (fun r s' => s' = s ∧ (r = none ∧ s.profile = none ∨ ∃ p, r = some p ∧ s.stored C = some p))
    (fun s' => s' = s) (Steps.profile C) s := by
  have hread : Ends inv (fun content s' => s' = s ∧ content = s.profile)
      (fun s' => s' = s) (Steps.attempt (Steps.ask .readProfile)) s := by
    refine Script.Holds.ask (S := setupService) (c := .readProfile) hs fun x s' hdoes => ?_
    obtain ⟨rfl, hcontent⟩ := hdoes
    refine ⟨hs, ?_⟩
    cases x with
    | ok content => exact ⟨rfl, hcontent content rfl⟩
    | error e => rfl
  refine Ends.bind hread ?_
  rintro content s' hinv ⟨rfl, hcontent⟩
  cases content with
  | none => exact Ends.pure hinv ⟨rfl, .inl ⟨rfl, hcontent.symm⟩⟩
  | some content =>
      dsimp only
      cases hdecode : C.decode content with
      | error e => exact Ends.throw hinv rfl
      | ok p =>
          dsimp only
          split_ifs with hschema
          · exact Ends.throw hinv rfl
          · refine Ends.pure hinv ⟨rfl, .inr ⟨p, rfl, ?_⟩⟩
            simp [Storage.stored, ← hcontent, hdecode, Except.toOption, not_not.mp hschema]

theorem resume_ends (hs : inv s) : Ends inv
    (fun r s' => s' = s ∧ (r = none ∧ s.profile = none ∨ ∃ prepared, r = some prepared ∧
      s.stored C = some prepared.profile)) (fun s' => s' = s) (Steps.resume C) s := by
  refine Ends.bind (profile_ends hs) ?_
  rintro r s' hinv ⟨rfl, ⟨rfl, hnone⟩ | ⟨p, rfl, hp⟩⟩
  · exact Ends.pure hinv ⟨rfl, .inl ⟨rfl, hnone⟩⟩
  · refine Ends.bind (attempt_quiet (ask_quiet (c := .reopen p) hinv fun _ _ h => h)) ?_
    rintro signer _ hinv' rfl
    dsimp only
    split_ifs
    · exact Ends.refused hinv' rfl
    · refine Ends.bind (pendingFor_ends hinv') ?_
      rintro pending _ hinv'' rfl
      exact Ends.pure hinv'' ⟨rfl, .inr ⟨_, rfl, hp⟩⟩

-- The profile is written beside its place first: what is at its place is the old one or the new.
theorem writeProfile_ends (hC : C.RoundTrips) {p : DeviceProfile} (hschema : p.schema = profileSchema)
    (hs : IdentityKept P C s₀ s)
    (hnext : ∀ s', s'.keys = s.keys → s'.stored C = some p → IdentityKept P C s s') :
    Ends (IdentityKept P C s₀) (fun _ s' => s'.stored C = some p) (fun s' => s'.profile = s.profile)
      (Steps.writeProfile C p) s := by
  refine Ends.bind ((attempt_quiet (ask_quiet (c := .createDir) hs fun _ _ h => h)).mono
    (fun _ _ _ h => h) fun _ _ h => congrArg _ h) ?_
  rintro _ s' hinv rfl
  cases hencode : C.encode p with
  | error e => exact Ends.throw hinv rfl
  | ok content =>
      have hwrite : Ends (IdentityKept P C s₀) (fun _ s'' => s'' = { s' with tmp := some content })
          (fun s'' => s''.profile = s'.profile) (Steps.attempt (Steps.ask (.writeTmp content))) s' := by
        refine Script.Holds.ask (S := setupService) (c := .writeTmp content) hinv fun x s'' hdoes => ?_
        obtain ⟨left, rfl, hleft⟩ := hdoes
        refine ⟨hinv.trans (.of_profile_eq rfl fun _ _ h => h), ?_⟩
        cases x with
        | ok u =>
            rw [hleft rfl]
        | error e => rfl
      refine Ends.bind hwrite ?_
      rintro _ _ hinv₁ rfl
      refine Ends.bind ((attempt_quiet (ask_quiet (c := .restrictTmp) hinv₁ fun _ _ h => h)).mono
        (fun _ _ _ h => h) fun _ _ h => by rw [h]) ?_
      rintro _ _ hinv₂ rfl
      refine Script.Holds.ask (S := setupService) (c := .replaceProfile) hinv₂ fun x s'' hdoes => ?_
      obtain ⟨rfl, -, rfl⟩ | ⟨herror, rfl⟩ := hdoes
      · have hstored : Storage.stored C { s' with profile := some content, tmp := none } = some p := by
          simp [Storage.stored, hC hencode, Except.toOption, hschema]
        exact ⟨hinv.trans (hnext _ rfl hstored), hstored⟩
      · refine ⟨hinv₂, ?_⟩
        cases x with
        | ok u => exact absurd rfl herror
        | error e => rfl

theorem firstRun_ends (hC : C.RoundTrips) (style : ApprovalStyle) (now : UInt64)
    (hs : IdentityKept P C s₀ s) (hnone : s.profile = none) : Ends (IdentityKept P C s₀)
      (fun r s' => s'.stored C = some r.profile) (fun s' => s'.profile = s.profile)
      (Steps.firstRun P C style now) s := by
  refine Ends.bind (Ends.lift (ask_quiet (c := .capabilities) hs fun _ _ h => h)) ?_
  rintro offered s hinv rfl
  dsimp only
  split_ifs
  · exact Ends.refused hinv rfl
  refine Ends.bind ((longLivedKeys_ends hinv).mono (fun _ _ _ h => h) fun _ _ h => h.1) ?_
  rintro keys s₁ hinv₁ ⟨hbacking, hgrown⟩
  refine Ends.bind ((attempt_quiet (ask_quiet (c := .create style _) hinv₁ fun _ _ h => h)).mono
    (fun _ _ _ h => h) fun _ _ h => (congrArg Storage.profile h).trans hgrown.1) ?_
  rintro created s₂ hinv₂ rfl
  have hnone₂ : s₂.stored C = none := by
    simp [Storage.stored, hgrown.1, hnone]
  refine Ends.bind ((writeProfile_ends hC rfl hinv₂ fun s' hkeys hstored => ?_).mono
    (fun _ _ _ h => h) fun _ _ h => h.trans hgrown.1) ?_
  · refine ⟨fun entry secret hkey => hkeys ▸ hkey, fun p hp => ?_, fun _ p hp => ?_⟩
    · cases hnone₂.symm.trans hp
    · obtain rfl := Option.some.inj (hstored.symm.trans hp)
      exact (hbacking style now created).mono fun entry secret hkey => hkeys ▸ hkey
  · rintro _ s₃ hinv₃ hstored
    refine Ends.bind (pendingFor_ends hinv₃) ?_
    rintro pending _ hinv₄ rfl
    exact Ends.pure hinv₄ hstored

end Parts

-- The calls as a whole.

section Calls

variable {s : Storage}

theorem schema_of_stored {p : DeviceProfile} (h : s.stored C = some p) : p.schema = profileSchema := by
  simp only [Storage.stored, Option.bind_eq_bind, Option.bind_eq_some_iff] at h
  obtain ⟨content, -, q, -, hq⟩ := h
  split_ifs at hq with hschema
  obtain rfl := Option.some.inj hq
  exact hschema

theorem complete_ends (hC : C.RoundTrips) (style : ApprovalStyle) (now : UInt64) (s : Storage) :
    Ends (IdentityKept P C s) (fun r s' => s'.stored C = some r.profile ∧
      ∀ p, s.stored C = some p → r.profile = p) (fun s' => s'.profile = s.profile)
      (Steps.complete P C style now) s := by
  refine Ends.bind ((resume_ends (.refl s)).mono (fun _ _ _ h => h) fun _ _ h => congrArg _ h) ?_
  rintro r _ hinv ⟨rfl, ⟨rfl, hnone⟩ | ⟨prepared, rfl, hp⟩⟩
  · refine (firstRun_ends hC style now hinv hnone).mono (fun r s' _ h => ⟨h, fun p hp => ?_⟩) fun _ _ h => h
    exact absurd hnone (profile_of_stored hp)
  · refine Ends.pure hinv ⟨hp, fun p hp' => ?_⟩
    exact Option.some.inj (hp.symm.trans hp')

theorem adoptAccount_ends (hC : C.RoundTrips) (account : FixedBytes 20) (s : Storage) :
    Ends (IdentityKept P C s) (fun _ s' => ∃ p, s'.stored C = some p ∧ p.account = some account)
      (fun s' => s'.profile = s.profile) (Steps.adoptAccount C account) s := by
  refine Ends.bind ((profile_ends (.refl s)).mono (fun _ _ _ h => h) fun _ _ h => congrArg _ h) ?_
  rintro r _ hinv ⟨rfl, ⟨rfl, -⟩ | ⟨p, rfl, hp⟩⟩
  · exact Ends.throw hinv rfl
  dsimp only
  cases haccount : p.account with
  | some existing =>
      dsimp only
      split_ifs with hother
      · exact Ends.refused hinv rfl
      · refine (pendingFor_ends hinv).mono (fun _ _ _ h => ?_) fun _ _ h => h
        exact ⟨p, h ▸ hp, haccount.trans (congrArg some (not_not.mp hother))⟩
  | none =>
      dsimp only
      have hschema : p.schema = profileSchema := schema_of_stored hp
      refine Ends.bind (writeProfile_ends hC (p := { p with account := some account }) hschema hinv
        fun s' hkeys hstored => ?_) ?_
      · refine ⟨fun entry secret hkey => hkeys ▸ hkey, fun q hq => ?_, fun hnone => ?_⟩
        · obtain rfl := Option.some.inj (hp.symm.trans hq)
          exact ⟨_, hstored, rfl, .inl haccount⟩
        · cases hnone.symm.trans hp
      · rintro _ s' hinv' hstored
        refine (pendingFor_ends hinv').mono (fun _ _ _ h => ?_) fun _ _ h => h
        exact ⟨_, h ▸ hstored, rfl⟩

end Calls

inductive SetupRun where
  | complete (style : ApprovalStyle) (now : UInt64)
  | resume
  | adoptAccount (account : FixedBytes 20)

inductive SetupResult where
  | prepared (prepared : Prepared)
  | resumed (prepared : Option Prepared)
  | adopted (pending : List Pending)

variable (P C)

def SetupRun.script : SetupRun → SetupM SetupResult
  | complete style now => return .prepared (← Steps.complete P C style now)
  | resume => return .resumed (← Steps.resume C)
  | adoptAccount account => return .adopted (← Steps.adoptAccount C account)

-- A call that ends with an answer, or with the process.
def SetupRun.Does (s : Storage) (run : SetupRun) (out : Option (Except SetupError SetupResult))
    (s' : Storage) : Prop := Script.Runs (run.script P C).run s out s'

abbrev SetupTaken := Taken Storage SetupRun (Option (Except SetupError SetupResult))

-- An answer is about the profile that is stored.
def ResultKept (run : SetupRun) (s : Storage) (result : SetupResult) (s' : Storage) : Prop :=
  match result with
  | .prepared r => s'.stored C = some r.profile ∧ ∀ p, s.stored C = some p → r.profile = p
  | .resumed r => ∀ prepared, r = some prepared → s.stored C = some prepared.profile
  | .adopted _ => ∀ account, run = .adoptAccount account →
      ∃ p, s'.stored C = some p ∧ p.account = some account

structure CallKept (x : SetupTaken) : Prop where
  identity : IdentityKept P C x.before x.after
  answered : ∀ result, x.output = some (.ok result) → ResultKept C x.input x.before result x.after
  failed : ∀ e, x.output = some (.error e) → x.after.profile = x.before.profile

variable {P C}

theorem script_ends (hC : C.RoundTrips) (run : SetupRun) (s : Storage) :
    Ends (IdentityKept P C s) (ResultKept C run s) (fun s' => s'.profile = s.profile) (run.script P C) s := by
  cases run with
  | complete style now =>
      exact Ends.bind (complete_ends hC style now s) fun _ _ hinv h => Ends.pure hinv h
  | resume =>
      refine Ends.bind ((resume_ends (.refl s)).mono (fun _ _ _ h => h) fun _ _ h => congrArg _ h) ?_
      rintro r _ hinv ⟨rfl, hr⟩
      refine Ends.pure hinv fun prepared hprepared => ?_
      subst hprepared
      obtain ⟨⟨⟩, -⟩ | ⟨_, ⟨⟩, hp⟩ := hr
      exact hp
  | adoptAccount account =>
      refine Ends.bind (adoptAccount_ends hC account s) fun _ _ hinv h => Ends.pure hinv ?_
      rintro _ ⟨⟩
      exact h

theorem callKept (hC : C.RoundTrips) {x : SetupTaken}
    (h : SetupRun.Does P C x.before x.input x.output x.after) : CallKept P C x := by
  obtain ⟨hinv, hout⟩ := script_ends hC x.input x.before x.output x.after h
  exact ⟨hinv, fun result hr => hout _ hr, fun e he => hout _ he⟩

-- However the calls follow each other, and wherever the process ends in them, the identity of any
-- state is that of every later one, and every answer is about it.
theorem identity_stable (hC : C.RoundTrips) {s : Storage} {log : List SetupTaken}
    (h : Chained (SetupRun.Does P C) s log) : (∀ x ∈ log, CallKept P C x ∧ IdentityKept P C s x.before) ∧
      log.Pairwise fun x y => IdentityKept P C x.after y.before := by
  obtain ⟨hall, hpairs⟩ := h.pairwise (R := IdentityKept P C) .refl .trans fun {s run out s'} hdoes =>
    (callKept hC (x := ⟨s, run, out, s'⟩) hdoes).identity
  exact ⟨fun x hx => ⟨callKept hC (h.does x hx), (hall x hx).1⟩, hpairs⟩

namespace Reference

-- What a run leaves that was stopped before it wrote the profile.
def leftSecret : KeyEntry → FixedBytes 32
  | .deviceX25519 => .replicate 32 11
  | .deviceEd25519 => .replicate 32 12
  | .ownerSealing => .replicate 32 13
  | .ownerSigning => .replicate 32 14

def leftStorage : Storage := ⟨fun entry => some (leftSecret entry).bytes, none, none⟩

def leftSigner : CreatedSigner := ⟨⟨.deviceKey, .replicate 32 1, none⟩, none, true⟩

def offered : DeviceCapabilities := ⟨false, true, true⟩

def leftKeys : PublicKeys :=
  let P := Core.Reference.primitives
  ⟨P.hpke.publicKey (leftSecret .deviceX25519), P.ed25519.publicKey (leftSecret .deviceEd25519),
    P.hpke.publicKey (leftSecret .ownerSealing), P.ed25519.publicKey (leftSecret .ownerSigning)⟩

def nextProfile : DeviceProfile := Steps.firstProfile .thisDevice 100 leftKeys leftSigner

def nextStorage : Storage := { leftStorage with profile := some (profileWire.put nextProfile) }

def nextTaken : SetupTaken := ⟨leftStorage, .complete .thisDevice 100,
  some (.ok (.prepared ⟨nextProfile, leftSigner.provider, outstanding true nextProfile⟩)), nextStorage⟩

theorem writeProfile_succeeds {s : Storage} {p : DeviceProfile} {C : Codec DeviceProfile} {content : Bytes}
    (h : C.encode p = .ok content) :
    Succeeds (Steps.writeProfile C p) s () { s with profile := some content, tmp := none } := by
  refine succeeds_bind.mpr ⟨(), s, Script.runs_ask.mpr rfl, ?_⟩
  rw [h]
  refine succeeds_bind.mpr ⟨(), { s with tmp := some content },
    Script.runs_ask.mpr ⟨_, rfl, fun _ => rfl⟩, ?_⟩
  refine succeeds_bind.mpr ⟨(), { s with tmp := some content }, Script.runs_ask.mpr rfl, ?_⟩
  exact Script.runs_ask.mpr (.inl ⟨rfl, by simp, rfl⟩)

theorem pendingFor_succeeds {s : Storage} {p : DeviceProfile} :
    Succeeds (Steps.pendingFor p) s (outstanding true p) s :=
  succeeds_bind.mpr ⟨offered, s, succeeds_lift.mpr (Script.runs_ask.mpr rfl), succeeds_pure.mpr ⟨rfl, rfl⟩⟩

theorem nextTaken_does : SetupRun.Does Core.Reference.primitives profileWire.codec nextTaken.before
    nextTaken.input nextTaken.output nextTaken.after := by
  have hx (entry : KeyEntry) : Succeeds (Steps.x25519 Core.Reference.primitives entry) leftStorage
      (.fromSecret (leftSecret entry)) leftStorage :=
    Steps.x25519_succeeds.mpr ⟨leftSecret entry, rfl, .inl ⟨rfl, rfl⟩⟩
  have hed (entry : KeyEntry) : Succeeds (Steps.ed25519 entry) leftStorage ⟨leftSecret entry⟩ leftStorage :=
    Steps.ed25519_succeeds.mpr (.inl ⟨rfl, rfl⟩)
  refine (succeeds_bind (f := fun r => pure (SetupResult.prepared r))).mpr
    ⟨⟨nextProfile, leftSigner.provider, outstanding true nextProfile⟩, nextStorage, ?_,
      succeeds_pure.mpr ⟨rfl, rfl⟩⟩
  refine succeeds_bind.mpr ⟨none, leftStorage, ?_, ?_⟩
  · refine succeeds_bind.mpr ⟨none, leftStorage, ?_, succeeds_pure.mpr ⟨rfl, rfl⟩⟩
    refine succeeds_bind.mpr ⟨none, leftStorage, Script.runs_ask.mpr ⟨rfl, ?_⟩, succeeds_pure.mpr ⟨rfl, rfl⟩⟩
    rintro _ ⟨⟩
    rfl
  refine succeeds_bind.mpr ⟨offered, leftStorage, succeeds_lift.mpr (Script.runs_ask.mpr rfl), ?_⟩
  refine succeeds_bind.mpr ⟨leftKeys, leftStorage, ?_, ?_⟩
  · refine succeeds_bind.mpr ⟨_, leftStorage, hx .deviceX25519, ?_⟩
    refine succeeds_bind.mpr ⟨_, leftStorage, hed .deviceEd25519, ?_⟩
    refine succeeds_bind.mpr ⟨_, leftStorage, hx .ownerSealing, ?_⟩
    exact succeeds_bind.mpr ⟨_, leftStorage, hed .ownerSigning, succeeds_pure.mpr ⟨rfl, rfl⟩⟩
  refine succeeds_bind.mpr ⟨leftSigner, leftStorage, Script.runs_ask.mpr rfl, ?_⟩
  refine succeeds_bind.mpr ⟨(), nextStorage, writeProfile_succeeds (profileWire.encode_put (by decide)), ?_⟩
  exact succeeds_bind.mpr ⟨_, nextStorage, pendingFor_succeeds, succeeds_pure.mpr ⟨rfl, rfl⟩⟩

-- The same again with the other style, stopped at once.
def stoppedTaken : SetupTaken := ⟨nextStorage, .complete .biometric 200, none, nextStorage⟩

theorem identity_stable_next : (∀ x ∈ [nextTaken, stoppedTaken],
      CallKept Core.Reference.primitives profileWire.codec x ∧
        IdentityKept Core.Reference.primitives profileWire.codec leftStorage x.before) ∧
      [nextTaken, stoppedTaken].Pairwise fun x y =>
        IdentityKept Core.Reference.primitives profileWire.codec x.after y.before :=
  identity_stable profileWire.codec_roundTrips ⟨rfl, nextTaken_does, rfl, .stopped _ _, trivial⟩

end Reference

end Zbacs.Agent.Setup
