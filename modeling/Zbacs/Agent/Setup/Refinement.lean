import Zbacs.Agent.Setup.Identity

namespace Zbacs.Agent.Setup

open Zbacs.Lib Zbacs.Core Attempt

-- A call that is not cut off does to the stored profile what it does in one step.

section Outcomes

variable {P : Primitives} {C : Codec DeviceProfile} {s s' : Storage}

theorem ends_succeeds {α : Type} {inv : Storage → Prop} {ok : α → Storage → Prop} {failed : Storage → Prop}
    {act : SetupM α} {a : α} (h : Ends inv ok failed act s) (hsucceeds : Succeeds act s a s') : ok a s' :=
  (h _ s' hsucceeds).2 _ rfl

theorem ends_fails {α : Type} {inv : Storage → Prop} {ok : α → Storage → Prop} {failed : Storage → Prop}
    {act : SetupM α} {e : SetupError} (h : Ends inv ok failed act s)
    (hfails : Script.Runs act.run s (some (.error e)) s') : failed s' := (h _ s' hfails).2 _ rfl

theorem pendingFor_outcome {p : DeviceProfile} {pending : List Pending}
    (h : Succeeds (Steps.pendingFor p) s pending s') :
    s' = s ∧ ∃ persistent, pending = outstanding persistent p := by
  obtain ⟨c, s₁, hask, hpure⟩ := succeeds_bind.mp h
  obtain rfl : s₁ = s := Script.runs_ask.mp (succeeds_lift.mp hask)
  obtain ⟨rfl, rfl⟩ := succeeds_pure.mp hpure
  exact ⟨rfl, c.persistentStore, rfl⟩

theorem resume_outcome {r : Option Prepared} (h : Succeeds (Steps.resume C) s r s') :
    s' = s ∧ (r = none ∧ s.profile = none ∨ ∃ p signer persistent, s.stored C = some p ∧
      signer.keyId = p.keyId ∧ r = some ⟨p, signer, outstanding persistent p⟩) := by
  obtain ⟨r', s₁, hprofile, hnext⟩ := succeeds_bind.mp h
  have hread := ends_succeeds (@profile_ends C s (fun _ => True) trivial) hprofile
  obtain ⟨rfl, ⟨rfl, hnone⟩ | ⟨p, rfl, hp⟩⟩ := hread
  · obtain ⟨rfl, rfl⟩ := succeeds_pure.mp hnext
    exact ⟨rfl, .inl ⟨rfl, hnone⟩⟩
  · obtain ⟨signer, s₂, hreopen, hlast⟩ := succeeds_bind.mp hnext
    obtain rfl : s₂ = s₁ := Script.runs_ask.mp hreopen
    dsimp only at hlast
    split_ifs at hlast with hkey
    · simp at hlast
    · obtain ⟨pending, s₃, hpending, hpure⟩ := succeeds_bind.mp hlast
      obtain ⟨rfl, persistent, rfl⟩ := pendingFor_outcome hpending
      obtain ⟨rfl, rfl⟩ := succeeds_pure.mp hpure
      exact ⟨rfl, .inr ⟨p, signer, persistent, hp, not_not.mp hkey, rfl⟩⟩

theorem firstRun_outcome {style : ApprovalStyle} {now : UInt64} {r : Prepared}
    (h : Succeeds (Steps.firstRun P C style now) s r s') :
    ∃ offered : DeviceCapabilities, ∃ keys created persistent,
      offered.offers style = true ∧ r = ⟨Steps.firstProfile style now keys created, created.provider,
        outstanding persistent (Steps.firstProfile style now keys created)⟩ := by
  obtain ⟨offered, s₁, -, hnext⟩ := succeeds_bind.mp h
  dsimp only at hnext
  split_ifs at hnext with hoffers
  · simp at hnext
  · obtain ⟨keys, s₂, -, hcreate⟩ := succeeds_bind.mp hnext
    obtain ⟨created, s₃, -, hwrite⟩ := succeeds_bind.mp hcreate
    obtain ⟨_, s₄, -, hlast⟩ := succeeds_bind.mp hwrite
    obtain ⟨pending, s₅, hpending, hpure⟩ := succeeds_bind.mp hlast
    obtain ⟨-, persistent, rfl⟩ := pendingFor_outcome hpending
    obtain ⟨rfl, -⟩ := succeeds_pure.mp hpure
    exact ⟨offered, keys, created, persistent, by simpa using hoffers, rfl⟩

end Outcomes

section Refinement

variable {P : Primitives} {C : Codec DeviceProfile} {s s' : Storage}

-- An answer of the steps is the one of the single step, and a failure is one as well.
def Refines {α : Type} (r : Except SetupError α) (s' : Storage) (C : Codec DeviceProfile)
    (atomic : SetupEnv → Except SetupError α × Option DeviceProfile) : Prop :=
  ∃ env, (atomic env).2 = s'.stored C ∧ match r with
    | .ok a => (atomic env).1 = .ok a
    | .error _ => ∃ e, (atomic env).1 = .error e

-- What a call meets that has nothing to do with the platform.
def envOf (offered : DeviceCapabilities) (persistent : Bool) (keys : PublicKeys) (signer : Signer)
    (created : CreatedSigner) (now : UInt64) : SetupEnv where
  capabilities := { offered with persistentStore := persistent }
  reads := true
  writes := true
  keys := .ok keys
  create _ _ := .ok created
  reopen _ := .ok signer
  now := now

def unreadable : SetupEnv where
  capabilities := ⟨false, false, false⟩
  reads := false
  writes := false
  keys := .error .cancelled
  create _ _ := .error .cancelled
  reopen _ := .error .cancelled
  now := 0

-- A machine that was set up before.
def reading (persistent : Bool) (reopened : Except SetupError Signer) : SetupEnv :=
  { unreadable with
    capabilities := ⟨false, false, persistent⟩
    reads := true
    writes := true
    reopen := fun _ => reopened }

theorem complete_refines (hC : C.RoundTrips) {style : ApprovalStyle} {now : UInt64}
    {r : Except SetupError Prepared} (h : Script.Runs (Steps.complete P C style now).run s (some r) s') :
    Refines r s' C fun env => complete { env with now := now } (s.stored C) style := by
  cases r with
  | error e =>
      have hsame := ends_fails (complete_ends hC style now s) h
      refine ⟨unreadable, ?_, .hardware "read profile", ?_⟩
      · exact (IdentityKept.stored_congr hsame).symm
      · rfl
  | ok prepared =>
      obtain ⟨r, s₁, hresume, hnext⟩ := succeeds_bind.mp h
      have hstored := ends_succeeds (complete_ends hC style now s) h
      obtain ⟨rfl, ⟨rfl, hnone⟩ | ⟨p, signer, persistent, hp, hkey, rfl⟩⟩ := resume_outcome hresume
      · obtain ⟨offered, keys, created, persistent, hoffers, rfl⟩ := firstRun_outcome hnext
        have hempty : s₁.stored C = none := by simp [Storage.stored, hnone]
        have hcomplete : complete (envOf offered persistent keys created.provider created now) none style =
            (.ok ⟨Steps.firstProfile style now keys created, created.provider,
              outstanding persistent (Steps.firstProfile style now keys created)⟩,
              some (Steps.firstProfile style now keys created)) := by
          have hoffers' : DeviceCapabilities.offers { offered with persistentStore := persistent } style =
              true := by
            cases style <;> exact hoffers
          simp only [complete, resume, profile, envOf, Bool.not_true, Bool.false_eq_true, if_false, hoffers',
            writeProfile, if_true]
          rfl
        refine ⟨envOf offered persistent keys created.provider created now, ?_, ?_⟩
        · rw [hempty, hstored.1]
          exact congrArg Prod.snd hcomplete
        · rw [hempty]
          exact congrArg Prod.fst hcomplete
      · obtain ⟨hprepared, rfl⟩ := succeeds_pure.mp hnext
        have hcomplete (env : SetupEnv) (hreads : env.reads = true) (hreopen : env.reopen p = .ok signer)
            (hcapabilities : env.capabilities.persistentStore = persistent) :
            complete env (some p) style = (.ok ⟨p, signer, outstanding persistent p⟩, some p) := by
          simp only [complete, resume, profile, hreads, hreopen, hkey, schema_of_stored hp, ne_eq,
            not_true_eq_false, Bool.not_true, Bool.false_eq_true, if_false]
          rw [← hcapabilities]
          rfl
        subst hprepared
        refine ⟨reading persistent (.ok signer), ?_, ?_⟩
        · rw [hp]
          exact congrArg Prod.snd (hcomplete _ rfl rfl rfl)
        · rw [hp]
          exact congrArg Prod.fst (hcomplete _ rfl rfl rfl)

theorem adoptAccount_refines (P : Primitives) (hC : C.RoundTrips) {account : FixedBytes 20}
    {r : Except SetupError (List Pending)}
    (h : Script.Runs (Steps.adoptAccount C account).run s (some r) s') :
    Refines r s' C fun env => adoptAccount env (s.stored C) account := by
  cases r with
  | error e =>
      have hsame := ends_fails (@adoptAccount_ends P C hC account s) h
      exact ⟨unreadable, (IdentityKept.stored_congr hsame).symm, .hardware "read profile", rfl⟩
  | ok pending =>
      obtain ⟨r, s₁, hprofile, hnext⟩ := succeeds_bind.mp h
      obtain ⟨rfl, ⟨rfl, -⟩ | ⟨p, rfl, hp⟩⟩ :=
        ends_succeeds (@profile_ends C s (fun _ => True) trivial) hprofile
      · simp at hnext
      have hschema := schema_of_stored hp
      obtain ⟨hkept, hanswer⟩ := @adoptAccount_ends P C hC account s₁ _ _ h
      obtain ⟨q, hq, haccountq⟩ := hanswer _ rfl
      obtain ⟨p', hp', hnext', -⟩ := hkept.profile p hp
      obtain rfl := Option.some.inj (hp'.symm.trans hq)
      rw [haccountq] at hnext'
      dsimp only at hnext
      cases haccount : p.account with
      | some existing =>
          simp only [haccount] at hnext
          split_ifs at hnext with hother
          · simp at hnext
          · obtain ⟨rfl, persistent, rfl⟩ := pendingFor_outcome hnext
            have hadopt : adoptAccount (reading persistent (.error .cancelled)) (some p) account =
                (.ok (outstanding persistent p), some p) := by
              simp only [adoptAccount, profile, reading, hschema, haccount, ne_eq, hother, not_true_eq_false,
                Bool.not_true, Bool.false_eq_true, if_false]
              rfl
            refine ⟨reading persistent (.error .cancelled), ?_, ?_⟩
            · rw [hp]
              exact congrArg Prod.snd hadopt
            · rw [hp]
              exact congrArg Prod.fst hadopt
      | none =>
          simp only [haccount] at hnext
          obtain ⟨_, s₂, hwrite, hlast⟩ := succeeds_bind.mp hnext
          obtain ⟨rfl, persistent, rfl⟩ := pendingFor_outcome hlast
          have hadopt : adoptAccount (reading persistent (.error .cancelled)) (some p) account =
              (.ok (outstanding persistent { p with account := some account }),
                some { p with account := some account }) := by
            simp only [adoptAccount, profile, reading, hschema, haccount, ne_eq, not_true_eq_false,
              Bool.not_true, Bool.false_eq_true, if_false, writeProfile, if_true]
            rfl
          refine ⟨reading persistent (.error .cancelled), ?_, ?_⟩
          · rw [hp]
            exact (congrArg Prod.snd hadopt).trans (hq.trans (congrArg some hnext')).symm
          · rw [hp]
            exact congrArg Prod.fst hadopt

end Refinement

end Zbacs.Agent.Setup
