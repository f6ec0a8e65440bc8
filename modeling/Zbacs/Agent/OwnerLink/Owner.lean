import Zbacs.Agent.OwnerLink
import Zbacs.Agent.Setup.Identity
import Zbacs.Core.Reference
import Zbacs.Onchain.Account.Execution

namespace Zbacs.Agent

open Zbacs.Lib Zbacs.Core
open Zbacs.Agent.Setup (DeviceProfile Prepared SetupEnv Succeeding adoptAccount adoptAccount_cases complete
  complete_cases resume resume_eq_ok)
open Zbacs.Contracts (Address)
open Zbacs.Onchain (Aa.KernelAccount RootValidator)

-- A machine writes as one owner, whenever it connects.

-- The smart account behind the key of a profile.
def ownerOf (W : Wallets) (validator : Option Address) (p : DeviceProfile) : Option Address :=
  (rootValidatorFor p validator).map fun root => (Aa.KernelAccount.new root).address W.keccak256

-- One deployment, and no funded key.
def Steady (validator : Option Address) : LinkAction → Prop
  | .ensure env _ => EnvConfig.get env keyEnv = none
  | .proceed _ meets => ∀ d, meets.deployment = some d → d.p256Validator = validator
  | .completeSetup .. | .restart _ => True

section Profiles

variable {W : Wallets} {validator : Option Address} {p p' : DeviceProfile}

theorem rootValidatorFor_succeeding (h : Succeeding p p') :
    rootValidatorFor p' validator = rootValidatorFor p validator := by
  rw [h.1]
  rfl

theorem ownerOf_succeeding (h : Succeeding p p') : ownerOf W validator p' = ownerOf W validator p := by
  rw [ownerOf, rootValidatorFor_succeeding h]
  rfl

-- What is on the disk stays there, but for the account.
def Carried (profile profile' : Option DeviceProfile) : Prop :=
  ∀ p, profile = some p → ∃ p', profile' = some p' ∧ Succeeding p p'

theorem Carried.refl (profile : Option DeviceProfile) : Carried profile profile :=
  fun p hp => ⟨p, hp, rfl, .inr rfl⟩

theorem Carried.trans {a b c : Option DeviceProfile} (h : Carried a b) (h' : Carried b c) : Carried a c := by
  intro p hp
  obtain ⟨q, hq, hpq⟩ := h p hp
  obtain ⟨r, hr, hqr⟩ := h' q hq
  exact ⟨r, hr, hpq.trans hqr⟩

-- The owner is the account behind the profile that is on the disk.
def Names (W : Wallets) (validator : Option Address) (profile : Option DeviceProfile) (a : Address) : Prop :=
  ∃ p, profile = some p ∧ ownerOf W validator p = some a

theorem Names.carried {profile profile' : Option DeviceProfile} {a : Address}
    (h : Names W validator profile a) (hcarried : Carried profile profile') : Names W validator profile' a := by
  obtain ⟨p, hp, howner⟩ := h
  obtain ⟨p', hp', hnext⟩ := hcarried p hp
  exact ⟨p', hp', (ownerOf_succeeding hnext).trans howner⟩

end Profiles

-- Whatever names an owner names the one behind the profile.
structure Owned (W : Wallets) (validator : Option Address) (s : OwnerAgent) : Prop where
  account : ∀ p a, s.shared.profile = some p → p.account = some a → Names W validator s.shared.profile a
  identity : ∀ r, s.shared.identity = some r →
    ∃ p, s.shared.profile = some p ∧ rootValidatorFor r.profile validator = rootValidatorFor p validator
  link : ∀ l a, s.shared.link = some l → l.owner = some a → Names W validator s.shared.profile a
  called : ∀ config, .called config ∈ s.threads → config.key = none
  connecting : ∀ setup, .connecting setup ∈ s.threads → ∀ l a, OwnerLink.connect W setup = some l →
    l.owner = some a → Names W validator s.shared.profile a

section Step

variable {W : Wallets} {validator : Option Address} {s : OwnerAgent}

theorem owned_start : Owned W validator .start := by
  constructor <;> simp [OwnerAgent.start]

-- The disk has moved on: all but what is said of its account stays true.
theorem Owned.carried (h : Owned W validator s) {profile : Option DeviceProfile}
    (hcarried : Carried s.shared.profile profile)
    (haccount : ∀ p a, profile = some p → p.account = some a → Names W validator profile a) :
    Owned W validator { s with shared := { s.shared with profile } } where
  account := haccount
  identity r hr := by
    obtain ⟨p, hp, hroot⟩ := h.identity r hr
    obtain ⟨p', hp', hnext⟩ := hcarried p hp
    exact ⟨p', hp', hroot.trans (rootValidatorFor_succeeding hnext).symm⟩
  link l a hl ha := (h.link l a hl ha).carried hcarried
  called := h.called
  connecting setup hsetup l a hl ha := (h.connecting setup hsetup l a hl ha).carried hcarried

theorem Owned.identified (h : Owned W validator s) {r : Prepared} (hr : s.shared.profile = some r.profile) :
    Owned W validator { s with shared := { s.shared with identity := some r } } := by
  refine ⟨h.account, ?_, h.link, h.called, h.connecting⟩
  rintro r' hr'
  cases hr'
  exact ⟨r.profile, hr, rfl⟩

-- A first profile names no account.
theorem complete_account {env : SetupEnv} {style : Setup.ApprovalStyle} {r : Prepared}
    {disk : Option DeviceProfile} (h : complete env none style = (.ok r, disk)) : r.profile.account = none := by
  unfold complete resume Setup.profile at h
  by_cases hreads : env.reads = true
  · simp only [hreads, Bool.not_true, Bool.false_eq_true, if_false] at h
    split_ifs at h
    · cases h
    · split at h
      · cases h
      · split at h
        · cases h
        · split at h
          · cases h
          · cases h
            rfl
  · simp [hreads] at h

theorem Owned.completeSetup (h : Owned W validator s) (style : Setup.ApprovalStyle) (env : SetupEnv) :
    Owned W validator (s.step W (.completeSetup style env)).2 ∧
      Carried s.shared.profile (s.step W (.completeSetup style env)).2.shared.profile := by
  rcases hresult : complete env s.shared.profile style with ⟨result, disk⟩
  rcases complete_cases style hresult with ⟨rfl, hsame⟩ | ⟨hnone, r, rfl, rfl⟩
  · cases result with
    | error e =>
        simp only [OwnerAgent.step, hresult]
        exact ⟨h, Carried.refl _⟩
    | ok r =>
        simp only [OwnerAgent.step, hresult]
        exact ⟨h.identified (hsame r rfl), Carried.refl _⟩
  · simp only [OwnerAgent.step, hresult]
    rw [hnone] at hresult
    have haccount := complete_account hresult
    have hcarried : Carried s.shared.profile (some r.profile) := by
      intro p hp
      rw [hnone] at hp
      cases hp
    have hnext := h.carried hcarried (fun p a hp ha => by
      cases hp
      rw [haccount] at ha
      cases ha)
    exact ⟨hnext.identified rfl, hcarried⟩

-- Only the owner that the profile's key stands for is ever put forward.
theorem Owned.adopt (h : Owned W validator s) (env : SetupEnv) {owner : Address}
    (hnames : Names W validator s.shared.profile owner) :
    Owned W validator { s with shared := s.shared.adoptOwner env owner } ∧
      Carried s.shared.profile (s.shared.adoptOwner env owner).profile := by
  rcases hresult : adoptAccount env s.shared.profile owner with ⟨result, disk⟩
  rcases adoptAccount_cases hresult with ⟨⟨e, rfl⟩, rfl⟩ | ⟨p, pending, rfl, hp, haccount, rfl⟩
  · simp only [LinkState.adoptOwner, hresult]
    exact ⟨h, Carried.refl _⟩
  · simp only [LinkState.adoptOwner, hresult]
    have hnext : Succeeding p { p with account := some owner } := by
      refine ⟨rfl, ?_⟩
      rcases haccount with hnone | hsame
      · exact .inl hnone
      · exact .inr hsame.symm
    have hcarried : Carried s.shared.profile (some { p with account := some owner }) := by
      intro q hq
      obtain rfl := Option.some.inj (hp.symm.trans hq)
      exact ⟨_, rfl, hnext⟩
    have hafter := h.carried hcarried (fun q a hq ha => by
      cases hq
      cases ha
      exact hnames.carried hcarried)
    refine ⟨⟨hafter.account, ?_, hafter.link, hafter.called, hafter.connecting⟩, hcarried⟩
    intro r hr
    obtain ⟨r', hr', rfl⟩ := Option.map_eq_some_iff.mp hr
    exact hafter.identity r' hr'

-- A writer is built for the key in memory, under this deployment.
theorem names_writerSetup (h : Owned W validator s) {config : EnvConfig} (hkey : config.key = none)
    {deployment : Onchain.Deployment} (hvalidator : deployment.p256Validator = validator) {l : OwnerLink}
    {a : Address} (hl : OwnerLink.connect W (writerSetup config deployment s.shared.identity) = some l)
    (ha : l.owner = some a) : Names W validator s.shared.profile a := by
  have hsilent : ∀ {l : OwnerLink}, OwnerLink.connect W .none = some l → l.owner = none := by
    rintro l ⟨⟩
    rfl
  unfold writerSetup at hl
  rw [hkey] at hl
  cases hbundler : config.bundler with
  | none =>
      rw [hbundler] at hl
      rw [hsilent hl] at ha
      cases ha
  | some bundlerUrls =>
      cases hidentity : s.shared.identity with
      | none =>
          rw [hbundler, hidentity] at hl
          rw [hsilent hl] at ha
          cases ha
      | some prepared =>
          obtain ⟨p, hp, hroot⟩ := h.identity prepared hidentity
          rw [hbundler, hidentity] at hl
          dsimp only at hl
          rw [hvalidator, hroot] at hl
          cases hfound : rootValidatorFor p validator with
          | none =>
              rw [hfound] at hl
              rw [hsilent hl] at ha
              cases ha
          | some root =>
              rw [hfound] at hl
              cases hl
              cases ha
              exact ⟨p, hp, by rw [ownerOf, hfound]; rfl⟩

-- What a thread comes to is settled by what it was.
theorem Owned.set (h : Owned W validator s) {index : Nat} {t : Linking}
    (hcalled : ∀ config, t ≠ .called config)
    (hconnecting : ∀ setup, t = .connecting setup → ∀ l a, OwnerLink.connect W setup = some l →
      l.owner = some a → Names W validator s.shared.profile a) :
    Owned W validator { s with threads := s.threads.set index t } := by
  refine ⟨h.account, h.identity, h.link, fun config hmem => ?_, fun setup hmem => ?_⟩
  · rcases List.mem_or_eq_of_mem_set hmem with hmem | heq
    · exact h.called config hmem
    · exact absurd heq.symm (hcalled config)
  · rcases List.mem_or_eq_of_mem_set hmem with hmem | heq
    · exact h.connecting setup hmem
    · exact hconnecting setup heq.symm

theorem Owned.linked (h : Owned W validator s) {l : OwnerLink}
    (hl : ∀ a, l.owner = some a → Names W validator s.shared.profile a) :
    Owned W validator { s with shared := { s.shared with link := some l } } := by
  refine ⟨h.account, h.identity, ?_, h.called, h.connecting⟩
  rintro l' a hl' ha
  cases hl'
  exact hl a ha

theorem Owned.run (h : Owned W validator s) {index : Nat} {t : Linking} (ht : s.threads[index]? = some t)
    {meets : LinkMeets} (hsteady : ∀ d, meets.deployment = some d → d.p256Validator = validator) :
    Owned W validator ⟨(t.run W meets s.shared).2.2, s.threads.set index (t.run W meets s.shared).2.1⟩ ∧
      Carried s.shared.profile (t.run W meets s.shared).2.2.profile := by
  have hmem := List.mem_of_getElem? ht
  have hended : Owned W validator { s with threads := s.threads.set index .ended } :=
    h.set (by simp) (by simp)
  cases t with
  | ended => exact ⟨hended, Carried.refl _⟩
  | called config =>
      unfold Linking.run
      cases hdeployment : meets.deployment with
      | none => exact ⟨hended, Carried.refl _⟩
      | some d =>
          refine ⟨h.set (by simp) ?_, Carried.refl _⟩
          rintro setup hsetup l a hl ha
          cases hsetup
          exact names_writerSetup h (h.called config hmem) (hsteady d hdeployment) hl ha
  | connecting setup =>
      unfold Linking.run
      dsimp only
      split_ifs
      · exact ⟨hended, Carried.refl _⟩
      · cases hl : OwnerLink.connect W setup with
        | none => exact ⟨hended, Carried.refl _⟩
        | some l =>
            have hnames := fun a => h.connecting setup hmem l a hl
            cases ha : l.owner with
            | none =>
                dsimp only
                rw [ha]
                refine ⟨hended.linked fun a ha' => ?_, Carried.refl _⟩
                rw [ha] at ha'
                cases ha'
            | some owner =>
                dsimp only
                rw [ha]
                obtain ⟨hadopted, hcarried⟩ := hended.adopt meets.env (hnames owner ha)
                refine ⟨hadopted.linked fun a ha' => ?_, hcarried⟩
                rw [ha] at ha'
                cases ha'
                exact (hnames owner ha).carried hcarried

theorem Owned.step (h : Owned W validator s) {action : LinkAction} (hsteady : Steady validator action) :
    Owned W validator (s.step W action).2 ∧ Carried s.shared.profile (s.step W action).2.shared.profile := by
  cases action with
  | completeSetup style env => exact h.completeSetup style env
  | ensure env embedded =>
      cases hconfig : EnvConfig.resolve env embedded with
      | none =>
          simp only [OwnerAgent.step, hconfig]
          exact ⟨h, Carried.refl _⟩
      | some config =>
          cases hlink : s.shared.link with
          | some l =>
              simp only [OwnerAgent.step, hconfig, hlink]
              exact ⟨h, Carried.refl _⟩
          | none =>
              simp only [OwnerAgent.step, hconfig, hlink]
              obtain ⟨rpc, -, hresolved⟩ := Option.bind_eq_some_iff.mp hconfig
              refine ⟨⟨h.account, h.identity, h.link, fun config' hmem => ?_, fun setup hmem => ?_⟩,
                Carried.refl _⟩
              · rcases List.mem_append.mp hmem with hmem | hmem
                · exact h.called config' hmem
                · cases List.mem_singleton.mp hmem
                  cases hresolved
                  exact hsteady
              · rcases List.mem_append.mp hmem with hmem | hmem
                · exact h.connecting setup hmem
                · cases List.mem_singleton.mp hmem
  | proceed index meets =>
      cases ht : s.threads[index]? with
      | none =>
          have hsame : s.step W (.proceed index meets) = ([], s) := by
            simp [OwnerAgent.step, Threads.turn, ht]
          rw [hsame]
          exact ⟨h, Carried.refl _⟩
      | some t =>
          rw [OwnerAgent.step, Threads.turn_resume ht]
          exact h.run ht hsteady
  | restart env =>
      refine ⟨⟨h.account, ?_, by simp [OwnerAgent.step], by simp [OwnerAgent.step],
        by simp [OwnerAgent.step]⟩, Carried.refl _⟩
      intro r hr
      cases hresume : resume env s.shared.profile with
      | error e => simp [OwnerAgent.step, hresume, Except.toOption] at hr
      | ok found =>
          simp only [OwnerAgent.step, hresume, Except.toOption, Option.join_some] at hr
          rw [hr] at hresume
          exact ⟨r.profile, resume_eq_ok hresume, rfl⟩

end Step

-- One machine writes as one owner. However setups, connections and starts of the program come and race,
-- with any outages and any failures of the disk, under one deployment and without a funded key:
-- every link of this machine that writes is the owner's smart account behind the key of its profile, no
-- other address ever gets into the profile, and one that is there stays.
theorem one_owner (W : Wallets) (validator : Option Address) (actions : List LinkAction)
    (hsteady : ∀ action ∈ actions, Steady validator action) :
    ∃ owner : Address, ∀ x ∈ trace (OwnerAgent.step W) actions .start,
      (∀ l a, x.after.shared.link = some l → l.owner = some a → a = owner) ∧
      (∀ p a, x.after.shared.profile = some p → p.account = some a → a = owner) ∧
      (∀ p a, x.after.shared.profile = some p → ownerOf W validator p = some a → a = owner) ∧
      ∀ p a, x.before.shared.profile = some p → p.account = some a →
        ∃ p', x.after.shared.profile = some p' ∧ p'.account = some a := by
  have halong : Along (fun _ x => Steady validator x.input) (trace (OwnerAgent.step W) actions .start) := by
    intro pre x post hlog
    apply hsteady
    rw [← map_input_trace actions OwnerAgent.start, hlog]
    simp
  obtain ⟨-, hlog⟩ := @trace_induct_along _ _ _ (OwnerAgent.step W) _ (fun log s => Owned W validator s ∧
    ∀ x ∈ log, Owned W validator x.after ∧ Carried x.before.shared.profile x.after.shared.profile ∧
      Carried x.after.shared.profile s.shared.profile) _ ⟨owned_start, by simp⟩ (by
    rintro log s action ⟨h, hlog⟩ hok
    obtain ⟨hnext, hcarried⟩ := h.step hok
    refine ⟨hnext, fun x hx => ?_⟩
    rcases List.mem_append.mp hx with hx | hx
    · obtain ⟨howned, hbefore, hafter⟩ := hlog x hx
      exact ⟨howned, hbefore, hafter.trans hcarried⟩
    · cases List.mem_singleton.mp hx
      exact ⟨hnext, hcarried, Carried.refl _⟩) actions halong
  -- the profile at the end says who it is
  let last := (final (OwnerAgent.step W) actions .start).shared.profile
  refine ⟨((last.bind (ownerOf W validator)).getD .zero), fun x hx => ?_⟩
  obtain ⟨howned, hbefore, hafter⟩ := hlog x hx
  have howner : ∀ a, Names W validator x.after.shared.profile a →
      a = (last.bind (ownerOf W validator)).getD .zero := by
    intro a hnames
    obtain ⟨p, hp, hpa⟩ := hnames.carried hafter
    have hlast : last = some p := hp
    rw [hlast, Option.bind_some, hpa]
    rfl
  refine ⟨fun l a hl ha => howner a (howned.link l a hl ha), fun p a hp ha => howner a (howned.account p a hp ha),
    fun p a hp ha => howner a ⟨p, hp, ha⟩, fun p a hp ha => ?_⟩
  obtain ⟨p', hp', hnext⟩ := hbefore p hp
  rcases hnext.2 with hnone | hsame
  · rw [hnone] at ha
    cases ha
  · exact ⟨p', hp', hsame.trans ha⟩

namespace Reference

def wallets : Wallets := ⟨Core.Reference.digest, fun _ => none⟩

def ownKey : Setup.Signer := ⟨.deviceKey, .replicate 32 5, some ⟨.replicate 32 6, .replicate 32 7⟩⟩

def quietSetup : SetupEnv where
  capabilities := ⟨true, true, true⟩
  reads := true
  writes := true
  keys := .ok ⟨.replicate 32 1, .replicate 32 2, .replicate 32 3, .replicate 32 4⟩
  create _ _ := .ok ⟨ownKey, none, true⟩
  reopen _ := .ok ownKey
  now := 100

def meets : LinkMeets := ⟨some Onchain.Reference.testChain, true, quietSetup⟩

def released : Embedded := ⟨some "https://node", some "addresses", some "https://bundler", none, ""⟩

-- The link is asked for while setup is still open, and again behind it; then the program starts anew.
def visits : List LinkAction :=
  [.ensure (fun _ => none) released, .completeSetup .thisDevice quietSetup,
    .ensure (fun _ => none) released, .proceed 0 meets, .proceed 1 meets, .proceed 1 meets, .proceed 0 meets,
    .restart quietSetup, .ensure (fun _ => none) released, .proceed 0 meets, .proceed 0 meets]

theorem visits_one_owner : (∀ action ∈ visits, Steady (some (.replicate 20 4)) action) ∧
    ((final (OwnerAgent.step wallets) visits .start).shared.link.bind (·.owner)).isSome = true ∧
    ∃ owner, ∀ x ∈ trace (OwnerAgent.step wallets) visits .start, ∀ l a,
      x.after.shared.link = some l → l.owner = some a → a = owner := by
  have hsteady : ∀ action ∈ visits, Steady (some (.replicate 20 4)) action := by
    have hmeets : ∀ d, meets.deployment = some d → d.p256Validator = some (.replicate 20 4) := by
      rintro d ⟨⟩
      rfl
    simpa [visits, Steady, EnvConfig.get] using hmeets
  have hlinked : ((final (OwnerAgent.step wallets) visits .start).shared.link.bind (·.owner)).isSome =
      true := by decide +kernel
  obtain ⟨owner, howner⟩ := one_owner wallets _ visits hsteady
  exact ⟨hsteady, hlinked, owner, fun x hx => (howner x hx).1⟩

end Reference

end Zbacs.Agent
