import Mathlib.Data.List.Chain
import Zbacs.Agent.Setup.Identity

namespace Zbacs.Agent.Setup

open Zbacs.Lib Zbacs.Core Attempt

-- A machine that is set up, used, and made to forget, and set up again.

inductive ForgetCall where
  | delete (entry : KeyEntry)
  | removeProfile

namespace ForgetCall

abbrev Answer : ForgetCall → Type
  | delete _ => Except SetupError Unit
  | removeProfile => Except SetupError Unit

def erased (s : Storage) (entry : KeyEntry) : Storage :=
  { s with keys := fun e => if e = entry then none else s.keys e }

-- Removing what is not there is no error. A deletion that reports one may have been made.
def Does : (c : ForgetCall) → Storage → c.Answer → Storage → Prop
  | delete entry, s, x, s' => s' = erased s entry ∨ (s' = s ∧ x ≠ .ok ())
  | removeProfile, s, x, s' => (x = .ok () ∧ s' = { s with profile := none }) ∨ (x ≠ .ok () ∧ s' = s)

end ForgetCall

abbrev forgetService : Service Storage := ⟨ForgetCall, ForgetCall.Answer, ForgetCall.Does⟩

abbrev ForgetM (α : Type) := Attempt forgetService SetupError α

namespace Steps

def askForget (c : ForgetCall) : Script forgetService c.Answer := @Script.ask _ forgetService c

def deleteAll : List KeyEntry → ForgetM Unit
  | [] => return ()
  | entry :: rest => do
    (ExceptT.mk (askForget (.delete entry)) : ForgetM Unit)
    deleteAll rest

-- Forget this device's setup: every stored secret, and then the profile.
def forget : ForgetM Unit := do
  deleteAll [.deviceX25519, .deviceEd25519, .ownerSealing, .ownerSigning]
  (ExceptT.mk (askForget .removeProfile) : ForgetM Unit)

end Steps

-- What is called on a machine.
inductive LifeCall where
  | setup (run : SetupRun)
  | ownerKeys
  | deviceKeys
  | forget

inductive LifeResult (P : Primitives) where
  | setup (result : SetupResult)
  | owner (keys : OwnerKeys P)
  | device (keys : DeviceKeyPair P)
  | forgotten

section

variable (P : Primitives) (C : Codec DeviceProfile)

-- A call that ends with a result, with an error, or with the process.
def LifeCall.Does (s : Storage) (call : LifeCall) (out : Option (Except SetupError (LifeResult P)))
    (s' : Storage) : Prop :=
  match call with
  | .setup run => ∃ r, Script.Runs (run.script P C).run s r s' ∧ out = r.map (Except.map .setup)
  | .ownerKeys => ∃ r, Script.Runs (Steps.ownerKeys P).run s r s' ∧ out = r.map (Except.map .owner)
  | .deviceKeys => ∃ r, Script.Runs (Steps.deviceKeys P).run s r s' ∧ out = r.map (Except.map .device)
  | .forget => ∃ r, Script.Runs Steps.forget.run s r s' ∧ out = r.map (Except.map fun _ => .forgotten)

abbrev LifeTaken := Taken Storage LifeCall (Option (Except SetupError (LifeResult P)))

-- There is a profile that can be read, or none.
def Readable (s : Storage) : Prop := s.profile = none ∨ ∃ p, s.stored C = some p

-- There is no profile, or one that can be read, with its secrets.
def Whole (s : Storage) : Prop := s.profile = none ∨ ∃ p, s.stored C = some p ∧ Backing P s p

-- Nothing of a setup is left.
structure Blank (s : Storage) : Prop where
  keys : ∀ entry, s.keys entry = none
  profile : s.profile = none

-- A forgetting that did not get through.
def CutShort {P : Primitives} (x : LifeTaken P) : Prop :=
  x.input = .forget ∧ x.output ≠ some (.ok .forgotten)

-- The keys in use are those of the profile, and nothing is made in their place; what is forgotten is
-- gone, and as long as any secret is left so is the profile.
structure LifeKept (x : LifeTaken P) : Prop where
  owner : ∀ keys, x.output = some (.ok (.owner keys)) → x.after = x.before ∧
    ∃ p, x.before.stored C = some p ∧ keys.sealing.x25519Pk = p.ownerSealingPub ∧
      keys.signing.verifyingKey P = p.ownerSigningPub
  device : ∀ keys, x.output = some (.ok (.device keys)) → x.after = x.before ∧
    ∃ p, x.before.stored C = some p ∧ keys.envelope.x25519Pk = p.deviceX25519Pub ∧
      keys.signing.verifyingKey P = p.deviceEd25519Pub
  forgotten : x.output = some (.ok .forgotten) → Blank x.after
  last : x.input = .forget → (∃ entry, x.after.keys entry ≠ none) → x.after.profile = x.before.profile

end

-- The profile on disk is one that was written whole.

section Readable

variable {P : Primitives} {C : Codec DeviceProfile} {s s' : Storage} {entry : KeyEntry}

theorem Readable.congr (hs : Readable C s) (h : s'.profile = s.profile) : Readable C s' := by
  rw [Readable, h, IdentityKept.stored_congr h]
  exact hs

-- Of all that a setup does only one call puts another file in the place of the profile.
theorem profile_of_does {c : SetupCall} (hc : c ≠ .replaceProfile) {x : c.Answer} (h : c.Does s x s') :
    s'.profile = s.profile := by
  cases c with
  | replaceProfile => exact absurd rfl hc
  | put entry secret =>
      obtain rfl | ⟨rfl, -⟩ := h
      · rfl
      · rfl
  | writeTmp content =>
      obtain ⟨_, rfl, -⟩ := h
      rfl
  | profileExists | readProfile | get =>
      rw [h.1]
  | random | capabilities | create | reopen | createDir | restrictTmp =>
      rw [h]

abbrev Leaves {α : Type} (act : SetupM α) : Prop := Only (· ≠ SetupCall.replaceProfile) act

theorem Leaves.ends {α : Type} {act : SetupM α} (h : Leaves act) (hs : Readable C s) :
    Ends (Readable C) (fun _ _ => True) (fun _ => True) act s :=
  Only.ends h (fun _ _ _ _ hc hdoes hreadable => hreadable.congr (profile_of_does hc hdoes)) hs

theorem leaves_secretKey : Leaves (Steps.secretKey entry) := by
  have hsecret : Leaves (Steps.secret entry) := by
    refine Only.bind ⟨nofun, fun _ => trivial⟩ fun found => ?_
    cases found with
    | some found => exact Only.pure _
    | none =>
        refine Only.bind (Only.lift ⟨nofun, fun _ => trivial⟩) fun fresh => ?_
        exact Only.bind ⟨nofun, fun _ => trivial⟩ fun _ => Only.pure _
  refine Only.bind hsecret fun secret => ?_
  cases FixedBytes.ofBytes? 32 secret with
  | none => exact Only.throw _
  | some sk => exact Only.pure _

theorem leaves_x25519 : Leaves (Steps.x25519 P entry) := Only.bind leaves_secretKey fun _ => Only.pure _

theorem leaves_ed25519 : Leaves (Steps.ed25519 entry) := Only.bind leaves_secretKey fun _ => Only.pure _

theorem leaves_longLivedKeys : Leaves (Steps.longLivedKeys P) :=
  Only.bind leaves_x25519 fun _ => Only.bind leaves_ed25519 fun _ => Only.bind leaves_x25519 fun _ =>
    Only.bind leaves_ed25519 fun _ => Only.pure _

theorem writeProfile_readable (hC : C.RoundTrips) {p : DeviceProfile} (hschema : p.schema = profileSchema)
    (hs : Readable C s) :
    Ends (Readable C) (fun _ _ => True) (fun _ => True) (Steps.writeProfile C p) s := by
  refine Ends.bind (Leaves.ends ⟨nofun, fun _ => trivial⟩ hs) fun _ s₁ hs₁ _ => ?_
  cases hencode : C.encode p with
  | error e => exact Ends.throw hs₁ trivial
  | ok content =>
      have hwrite : Ends (Readable C) (fun _ s' => s'.tmp = some content) (fun _ => True)
          (Steps.attempt (Steps.ask (.writeTmp content))) s₁ := by
        refine Script.Holds.ask (S := setupService) (c := .writeTmp content) hs₁ fun x s' hdoes => ?_
        obtain ⟨left, rfl, hleft⟩ := hdoes
        refine ⟨hs₁.congr rfl, ?_⟩
        cases x with
        | ok u => exact hleft rfl
        | error e => exact trivial
      refine Ends.bind hwrite fun _ s₂ hs₂ htmp => ?_
      refine Ends.bind ((attempt_quiet (ask_quiet (c := .restrictTmp) hs₂ fun _ _ h => h)).mono
        (fun _ _ _ h => h) fun _ _ _ => trivial) ?_
      rintro _ _ hs₃ rfl
      refine Script.Holds.ask (S := setupService) (c := .replaceProfile) hs₃ fun x s' hdoes => ?_
      obtain ⟨rfl, -, rfl⟩ | ⟨herror, rfl⟩ := hdoes
      · refine ⟨.inr ⟨p, ?_⟩, trivial⟩
        simp [Storage.stored, htmp, hC hencode, Except.toOption, hschema]
      · exact ⟨hs₃, by cases x <;> trivial⟩

theorem firstRun_readable (hC : C.RoundTrips) (style : ApprovalStyle) (now : UInt64) (hs : Readable C s) :
    Ends (Readable C) (fun _ _ => True) (fun _ => True) (Steps.firstRun P C style now) s := by
  refine Ends.bind (Leaves.ends (Only.lift ⟨nofun, fun _ => trivial⟩) hs) fun offered s₁ hs₁ _ => ?_
  dsimp only
  split_ifs
  · exact Ends.refused hs₁ trivial
  refine Ends.bind (leaves_longLivedKeys.ends hs₁) fun keys s₂ hs₂ _ => ?_
  refine Ends.bind (Leaves.ends ⟨nofun, fun _ => trivial⟩ hs₂) fun created s₃ hs₃ _ => ?_
  refine Ends.bind (writeProfile_readable hC rfl hs₃) fun _ s₄ hs₄ _ => ?_
  exact Ends.bind (pendingFor_ends hs₄) fun _ _ hs₅ _ => Ends.pure hs₅ trivial

theorem complete_readable (hC : C.RoundTrips) (style : ApprovalStyle) (now : UInt64) (hs : Readable C s) :
    Ends (Readable C) (fun _ _ => True) (fun _ => True) (Steps.complete P C style now) s := by
  refine Ends.bind ((resume_ends hs).mono (fun _ _ _ h => h) fun _ _ _ => trivial) fun r s' hs' _ => ?_
  cases r with
  | none => exact firstRun_readable hC style now hs'
  | some existing => exact Ends.pure hs' trivial

theorem adoptAccount_readable (hC : C.RoundTrips) (account : FixedBytes 20) (hs : Readable C s) :
    Ends (Readable C) (fun _ _ => True) (fun _ => True) (Steps.adoptAccount C account) s := by
  have hpending : ∀ {p : DeviceProfile} {s : Storage}, Readable C s →
      Ends (Readable C) (fun _ _ => True) (fun _ => True) (Steps.pendingFor p) s :=
    fun hs => Leaves.ends (Only.bind (Only.lift ⟨nofun, fun _ => trivial⟩) fun _ => Only.pure _) hs
  refine Ends.bind ((profile_ends hs).mono (fun _ _ _ h => h) fun _ _ _ => trivial) ?_
  rintro r s' hs' ⟨rfl, ⟨rfl, -⟩ | ⟨p, rfl, hp⟩⟩
  · exact Ends.throw hs' trivial
  dsimp only
  cases p.account with
  | some existing =>
      dsimp only
      split_ifs
      · exact Ends.refused hs' trivial
      · exact hpending hs'
  | none =>
      have hschema : p.schema = profileSchema := schema_of_stored hp
      exact Ends.bind (writeProfile_readable hC hschema hs') fun _ _ hs'' _ => hpending hs''

theorem script_readable (hC : C.RoundTrips) (run : SetupRun) (hs : Readable C s) :
    Ends (Readable C) (fun _ _ => True) (fun _ => True) (run.script P C) s := by
  cases run with
  | complete style now =>
      exact Ends.bind (complete_readable hC style now hs) fun _ _ hinv _ => Ends.pure hinv trivial
  | resume =>
      exact Ends.bind ((resume_ends hs).mono (fun _ _ _ h => h) fun _ _ _ => trivial)
        fun _ _ hinv _ => Ends.pure hinv trivial
  | adoptAccount account =>
      exact Ends.bind (adoptAccount_readable hC account hs) fun _ _ hinv _ => Ends.pure hinv trivial

end Readable

section Keys

variable {P : Primitives} {C : Codec DeviceProfile} {s : Storage} {entry x ed : KeyEntry}
  {skX skEd : FixedBytes 32} {β : Type} {mk : DeviceKeys P → SigningKeys → β}

-- A secret that is there is the one that is given, and nothing is put in the key store.
theorem secretKey_there {sk : FixedBytes 32} (hkey : s.keys entry = some sk.bytes) :
    Ends (· = s) (fun found _ => found = sk) (fun _ => True) (Steps.secretKey entry) s := by
  have hsecret : Ends (· = s) (fun secret _ => secret = sk.bytes) (fun _ => True) (Steps.secret entry) s := by
    refine Ends.bind ((@get_ends s entry (· = s) rfl).mono (fun _ _ _ h => h) fun _ _ _ => trivial) ?_
    rintro found s' hinv ⟨rfl, rfl⟩
    rw [hkey]
    exact Ends.pure hinv rfl
  refine Ends.bind hsecret ?_
  rintro secret s' rfl rfl
  rw [FixedBytes.ofBytes?_bytes]
  exact Ends.pure rfl rfl

theorem pair_there (hx : s.keys x = some skX.bytes) (hed : s.keys ed = some skEd.bytes) :
    Ends (· = s) (fun keys _ => keys = mk (.fromSecret skX) ⟨skEd⟩) (fun _ => True) (do
      if !(← (ExceptT.lift (Steps.ask .profileExists) : SetupM Bool)) then throw Steps.notSetUp
      return mk (← Steps.x25519 P x) (← Steps.ed25519 ed)) s := by
  refine Ends.bind (Ends.lift (ask_quiet (c := .profileExists) rfl fun _ _ h => h.1)) ?_
  rintro there s' rfl -
  cases there with
  | false => exact Ends.refused rfl trivial
  | true =>
      have hX : Ends (· = s') (fun keys _ => keys = .fromSecret skX) (fun _ => True) (Steps.x25519 P x) s' :=
        Ends.bind (secretKey_there hx) fun _ _ hinv h => Ends.pure hinv (congrArg _ h)
      have hEd : Ends (· = s') (fun keys _ => keys = ⟨skEd⟩) (fun _ => True) (Steps.ed25519 ed) s' :=
        Ends.bind (secretKey_there hed) fun _ _ hinv h => Ends.pure hinv (congrArg _ h)
      refine Ends.bind hX ?_
      rintro keysX _ rfl rfl
      refine Ends.bind hEd ?_
      rintro keysEd _ rfl rfl
      exact Ends.pure rfl rfl

-- Where there is no profile, there are no keys to be had.
theorem pair_refused (hnone : s.profile = none) :
    Ends (· = s) (fun _ _ => False) (fun _ => True) (do
      if !(← (ExceptT.lift (Steps.ask .profileExists) : SetupM Bool)) then throw Steps.notSetUp
      return mk (← Steps.x25519 P x) (← Steps.ed25519 ed)) s := by
  have hexists : Script.Holds (· = s) (fun there _ => there = false) (Steps.ask .profileExists) s := by
    refine Script.Holds.ask (S := setupService) (c := .profileExists) rfl fun there s' hdoes => ⟨hdoes.1, ?_⟩
    exact Bool.eq_false_iff.mpr fun htrue => hdoes.2 htrue hnone
  refine Ends.bind (Ends.lift hexists) ?_
  rintro there s' rfl rfl
  exact Ends.refused rfl trivial

theorem ownerKeys_ends (h : Whole P C s) : Ends (· = s) (fun keys _ => ∃ p, s.stored C = some p ∧
    keys.sealing.x25519Pk = p.ownerSealingPub ∧ keys.signing.verifyingKey P = p.ownerSigningPub)
      (fun _ => True) (Steps.ownerKeys P) s := by
  obtain hnone | ⟨p, hp, hbacking⟩ := h
  · exact (pair_refused hnone).mono (fun _ _ _ hfalse => hfalse.elim) fun _ _ h => h
  · obtain ⟨skX, hx, hpubX⟩ := hbacking.ownerSealing
    obtain ⟨skEd, hed, hpubEd⟩ := hbacking.ownerSigning
    refine (pair_there hx hed).mono ?_ fun _ _ h => h
    rintro keys _ - rfl
    exact ⟨p, hp, hpubX, hpubEd⟩

theorem deviceKeys_ends (h : Whole P C s) : Ends (· = s) (fun keys _ => ∃ p, s.stored C = some p ∧
    keys.envelope.x25519Pk = p.deviceX25519Pub ∧ keys.signing.verifyingKey P = p.deviceEd25519Pub)
      (fun _ => True) (Steps.deviceKeys P) s := by
  obtain hnone | ⟨p, hp, hbacking⟩ := h
  · exact (pair_refused hnone).mono (fun _ _ _ hfalse => hfalse.elim) fun _ _ h => h
  · obtain ⟨skX, hx, hpubX⟩ := hbacking.deviceX25519
    obtain ⟨skEd, hed, hpubEd⟩ := hbacking.deviceEd25519
    refine (pair_there hx hed).mono ?_ fun _ _ h => h
    rintro keys _ - rfl
    exact ⟨p, hp, hpubX, hpubEd⟩

end Keys

section Forget

variable {s₀ s : Storage}

-- The secrets go one after the other; until they are all gone the profile stays.
theorem deleteAll_ends (entries : List KeyEntry) (hs : s.profile = s₀.profile) :
    Ends (fun s' => s'.profile = s₀.profile ∨ Blank s')
      (fun _ s' => s'.profile = s₀.profile ∧ ∀ e, e ∈ entries ∨ s.keys e = none → s'.keys e = none)
      (fun _ => True) (Steps.deleteAll entries) s := by
  induction entries generalizing s with
  | nil =>
      refine Ends.pure (.inl hs) ⟨hs, fun e he => he.resolve_left List.not_mem_nil⟩
  | cons entry rest ih =>
      have hdelete : Ends (fun s' => s'.profile = s₀.profile ∨ Blank s')
          (fun _ s' => s' = ForgetCall.erased s entry) (fun _ => True)
          (ExceptT.mk (Steps.askForget (.delete entry)) : ForgetM Unit) s := by
        refine Script.Holds.ask (S := forgetService) (c := .delete entry) (.inl hs) fun x s' hdoes => ?_
        obtain rfl | ⟨rfl, herror⟩ := hdoes
        · exact ⟨.inl hs, by cases x <;> trivial⟩
        · refine ⟨.inl hs, ?_⟩
          cases x with
          | ok u => exact absurd rfl herror
          | error e => exact trivial
      refine Ends.bind hdelete ?_
      rintro _ s' - rfl
      refine (ih (s := ForgetCall.erased s entry) hs).mono (fun _ s' _ h => ⟨h.1, fun e he => h.2 e ?_⟩)
        fun _ _ h => h
      by_cases hentry : e = entry
      · exact .inr (if_pos hentry)
      · refine he.imp (fun hmem => (List.mem_cons.mp hmem).resolve_left hentry) fun hnone => ?_
        exact (if_neg hentry).trans hnone

theorem forget_ends (s : Storage) :
    Ends (fun s' => s'.profile = s.profile ∨ Blank s') (fun _ s' => Blank s') (fun _ => True)
      Steps.forget s := by
  refine Ends.bind (deleteAll_ends _ rfl) fun _ s₁ hs₁ hgone => ?_
  have hkeys : ∀ entry, s₁.keys entry = none := by
    intro entry
    refine hgone.2 entry (.inl ?_)
    cases entry <;> simp
  refine Script.Holds.ask (S := forgetService) (c := .removeProfile) hs₁ fun x s' hdoes => ?_
  obtain ⟨rfl, rfl⟩ | ⟨herror, rfl⟩ := hdoes
  · exact ⟨.inr ⟨hkeys, rfl⟩, hkeys, rfl⟩
  · refine ⟨hs₁, ?_⟩
    cases x with
    | ok u => exact absurd rfl herror
    | error e => exact trivial

end Forget

section Life

variable {P : Primitives} {C : Codec DeviceProfile} {s s' : Storage} {x : LifeTaken P}

theorem Whole.readable (h : Whole P C s) : Readable C s := h.imp_right fun ⟨p, hp, _⟩ => ⟨p, hp⟩

theorem Blank.whole (h : Blank s) : Whole P C s := .inl h.profile

-- A setup goes on from a whole state to a whole one, however it ends.
theorem Whole.setup (hs : Whole P C s) (hkept : IdentityKept P C s s') (hreadable : Readable C s') :
    Whole P C s' := by
  refine hreadable.imp_right fun ⟨p', hp'⟩ => ⟨p', hp', ?_⟩
  obtain hnone | ⟨p, hp, hbacking⟩ := hs
  · refine hkept.reused ?_ p' hp'
    rw [Storage.stored, hnone]
    rfl
  · obtain ⟨q, hq, hnext⟩ := hkept.profile p hp
    obtain rfl := Option.some.inj (hq.symm.trans hp')
    exact (hbacking.mono hkept.keys).succeeding hnext

-- What one call does that finds its machine whole.
theorem LifeCall.kept (hC : C.RoundTrips) (hdoes : LifeCall.Does P C x.before x.input x.output x.after)
    (hwhole : x.input ≠ .forget → Whole P C x.before) :
    LifeKept P C x ∧ (¬ CutShort x → Whole P C x.after) ∧
      (x.input ≠ .forget → IdentityKept P C x.before x.after) := by
  obtain ⟨s, call, out, s'⟩ := x
  cases call with
  | setup run =>
      obtain ⟨r, hruns, rfl⟩ := hdoes
      have hs : Whole P C s := hwhole nofun
      obtain ⟨hkept, -⟩ := script_ends hC run s r s' hruns
      obtain ⟨hreadable, -⟩ := script_readable hC run hs.readable r s' hruns
      refine ⟨⟨?_, ?_, ?_, nofun⟩, fun _ => hs.setup hkept hreadable, fun _ => hkept⟩
      all_goals rcases r with - | (e | result) <;> nofun
  | ownerKeys =>
      obtain ⟨r, hruns, rfl⟩ := hdoes
      have hs : Whole P C s := hwhole nofun
      obtain ⟨rfl, hresult⟩ := ownerKeys_ends hs r s' hruns
      refine ⟨⟨fun keys hkeys => ⟨rfl, ?_⟩, ?_, ?_, nofun⟩, fun _ => hs, fun _ => .refl s'⟩
      · rcases r with - | (e | keys')
        · cases hkeys
        · cases hkeys
        · cases hkeys
          exact hresult _ rfl
      all_goals rcases r with - | (e | result) <;> nofun
  | deviceKeys =>
      obtain ⟨r, hruns, rfl⟩ := hdoes
      have hs : Whole P C s := hwhole nofun
      obtain ⟨rfl, hresult⟩ := deviceKeys_ends hs r s' hruns
      refine ⟨⟨?_, fun keys hkeys => ⟨rfl, ?_⟩, ?_, nofun⟩, fun _ => hs, fun _ => .refl s'⟩
      · rcases r with - | (e | result) <;> nofun
      · rcases r with - | (e | keys')
        · cases hkeys
        · cases hkeys
        · cases hkeys
          exact hresult _ rfl
      · rcases r with - | (e | result) <;> nofun
  | forget =>
      obtain ⟨r, hruns, rfl⟩ := hdoes
      obtain ⟨hprofile, hresult⟩ := forget_ends s r s' hruns
      have hblank : r.map (Except.map fun _ => (.forgotten : LifeResult P)) = some (.ok .forgotten) →
          Blank s' := by
        rcases r with - | (e | u)
        · nofun
        · nofun
        · exact fun _ => hresult _ rfl
      refine ⟨⟨?_, ?_, hblank, ?_⟩, fun hthrough => ?_, fun hne => absurd rfl hne⟩
      · rcases r with - | (e | u) <;> nofun
      · rcases r with - | (e | u) <;> nofun
      · rintro - ⟨entry, hleft⟩
        exact hprofile.resolve_right fun hgone => hleft (hgone.keys entry)
      · exact (hblank (not_not.mp fun hne => hthrough ⟨rfl, hne⟩)).whole

-- The state a run goes on from is whole, unless a forgetting is next.
theorem life_kept {log : List (LifeTaken P)} (hC : C.RoundTrips)
    (hs : ∀ x ∈ log.head?, x.input ≠ .forget → Whole P C s) (h : Chained (LifeCall.Does P C) s log)
    (hagain : log.IsChain fun x y => CutShort x → y.input = .forget) :
    ∀ x ∈ log, LifeKept P C x ∧ (x.input ≠ .forget → IdentityKept P C x.before x.after) := by
  induction log generalizing s with
  | nil => exact fun x hx => absurd hx List.not_mem_nil
  | cons x rest ih =>
      obtain ⟨rfl, hdoes, hrest⟩ := h
      obtain ⟨hnext, htail⟩ := List.isChain_cons.mp hagain
      obtain ⟨hkept, hwhole, hidentity⟩ := LifeCall.kept hC hdoes (hs x rfl)
      refine List.forall_mem_cons.mpr ⟨⟨hkept, hidentity⟩, ih (fun y hy hne => ?_) hrest htail⟩
      exact hwhole fun hcut => hne (hnext y hy hcut)

end Life

-- However setups, uses and forgettings follow each other, and whatever fails or stops in them, the
-- keys in use are those of the profile, as long as a forgetting that was cut short is made again before
-- anything else. What is forgotten is gone, and from one forgetting to the next there is one identity.
theorem lives_by_profile {P : Primitives} {C : Codec DeviceProfile} (hC : C.RoundTrips) {s : Storage}
    {log : List (LifeTaken P)} (hs : Whole P C s) (h : Chained (LifeCall.Does P C) s log)
    (hagain : log.IsChain fun x y => CutShort x → y.input = .forget) :
    (∀ x ∈ log, LifeKept P C x) ∧
    ∀ pre x mid y post, log = pre ++ x :: (mid ++ y :: post) → (∀ z ∈ x :: mid, z.input ≠ .forget) →
      IdentityKept P C x.before y.before := by
  have hkept := life_kept hC (fun _ _ _ => hs) h hagain
  refine ⟨fun x hx => (hkept x hx).1, ?_⟩
  rintro pre x mid y post rfl hquiet
  obtain ⟨s', hsegment⟩ := h.right
  refine hsegment.between (R := IdentityKept P C) .trans fun z hz => ?_
  refine (hkept z (List.mem_append_right pre ?_)).2 (hquiet z hz)
  obtain rfl | hmid := List.mem_cons.mp hz
  · exact List.mem_cons_self
  · exact List.mem_cons_of_mem x (List.mem_append_left _ hmid)

end Zbacs.Agent.Setup
