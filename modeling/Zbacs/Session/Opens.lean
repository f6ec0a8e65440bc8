import Zbacs.Contracts.Chain.Opens
import Zbacs.Session.State

namespace Zbacs

open Zbacs.Core Zbacs.Session

-- The agent's own count of the opens, in the builds it may have.

namespace Session

-- With overflow checks an addition that does not fit panics, without them it wraps around.
inductive Build where
  | checked
  | wrapping

-- `opens += 1`; `none` is a panic.
def Build.increment : Build → UInt16 → Option UInt16
  | checked, opens => if opens.toNat + 1 < 2 ^ 16 then some (opens + 1) else none
  | wrapping, opens => some (opens + 1)

-- `apply` as a build has it. No other event adds anything up.
def applyIn (b : Build) (s : Session) (event : Event) (now : UInt64) :
    Option (Except TransitionError (Session × List Effect)) :=
  match s.state, event with
  | .granted, .opened =>
      if s.maxOpens ≠ 0 ∧ s.maxOpens ≤ s.opens then
        some (.ok ({ s with state := .closed }, [.wipeWorkspace, .notify .opensExhausted]))
      else do
        let opens ← b.increment s.opens
        some (.ok ({ s with opens := opens, state := .opened },
          (if s.permission = some .readOnly then [.markReadOnly] else []) ++
            [.launchViewer, .audit .opened]))
  | _, event => some (s.apply event now)

-- The open is counted and the file is shown.
def Shows (b : Build) (s : Session) (now : UInt64) : Prop :=
  ∃ s' effects, s.applyIn b .opened now = some (.ok (s', effects)) ∧
    Effect.launchViewer ∈ effects ∧ s'.opens.toNat = s.opens.toNat + 1

section Builds

variable {b : Build} {s : Session} {event : Event} {now : UInt64} {permission : Permission}
  {notBefore expiry : UInt64} {opens : UInt16}

theorem applyIn_open (h : s.state = .granted) (hroom : ¬(s.maxOpens ≠ 0 ∧ s.maxOpens ≤ s.opens)) :
    s.applyIn b .opened now = (b.increment s.opens).map fun opens =>
      .ok ({ s with opens := opens, state := .opened },
        (if s.permission = some .readOnly then [.markReadOnly] else []) ++
          [.launchViewer, .audit .opened]) := by
  rcases s with ⟨state, _⟩
  cases h
  unfold applyIn
  dsimp only
  rw [if_neg hroom]
  cases b.increment _ <;> rfl

-- Without the checks it is `apply`, and with them as long as the count fits.
theorem applyIn_eq (h : b = .wrapping ∨ s.opens.toNat + 1 < 2 ^ 16) :
    s.applyIn b event now = some (s.apply event now) := by
  have hincrement : b.increment s.opens = some (s.opens + 1) := by
    cases b with
    | wrapping => rfl
    | checked => exact if_pos (h.resolve_left (by simp))
  by_cases hopen : s.state = .granted ∧ event = .opened
  · obtain ⟨hstate, rfl⟩ := hopen
    rw [apply_open hstate]
    by_cases hspent : s.maxOpens ≠ 0 ∧ s.maxOpens ≤ s.opens
    · rw [if_pos hspent]
      unfold applyIn
      rw [hstate]
      dsimp only
      rw [if_pos hspent]
    · rw [if_neg hspent, applyIn_open hstate hspent, hincrement]
      rfl
  · unfold applyIn
    split
    · rename_i hstate
      exact absurd ⟨hstate, rfl⟩ hopen
    · rfl

theorem shows_resume_iff :
    (∀ b, (resume permission notBefore expiry 0 opens).Shows b now) ↔ opens.toNat + 1 < 2 ^ 16 := by
  constructor
  · intro hshows
    by_contra hfull
    have hpanic : Build.checked.increment opens = none := if_neg hfull
    obtain ⟨s', effects, happly, -⟩ := hshows .checked
    rw [applyIn_open rfl fun hspent => hspent.1 rfl, show (resume ..).opens = opens from rfl,
      hpanic] at happly
    cases happly
  · intro hbound b
    refine ⟨_, _, (applyIn_eq (.inr hbound)).trans (congrArg some (apply_opened rfl (.inl rfl))),
      ?_, ?_⟩
    · exact List.mem_append_right _ List.mem_cons_self
    · exact (UInt16.toNat_add ..).trans (Nat.mod_eq_of_lt hbound)

end Builds

section Unlimited

open Zbacs.Lib Zbacs.Contracts

-- A grant without a limit is opened exactly as long as the opens fit the counter: on the chain,
-- whatever else was sent to it, those counted since the grant was made; in the agent those it has
-- been resumed with, at any time.
theorem unlimited_opens_iff (d : Deployment) (txs : List Tx) (msg : Msg) (id : FixedBytes 32)
    (devicePubKeys : Bytes)
    (h : (Chain.run d txs).policy.Unlimited d msg id devicePubKeys)
    (permission : Core.Permission) (notBefore expiry now : UInt64) (opens : UInt16) :
    ((∃ event p', (Chain.run d txs).policy.consumeOpen d msg id devicePubKeys = .ok (event, p')) ↔
      opensCounted id (Chain.log d txs) < 65535) ∧
    ((∀ b, (resume permission notBefore expiry 0 opens).Shows b now) ↔ opens ≠ 65535) := by
  constructor
  · rw [h.lands_iff, opens_run]
    exact Nat.succ_lt_succ_iff
  · rw [shows_resume_iff]
    have hbound := opens.toNat_lt
    have hmax : opens = 65535 ↔ opens.toNat = 65535 := UInt16.toNat_inj.symm
    rw [ne_eq, hmax]
    omega

namespace Reference

open Zbacs.Contracts.Reference

def devicePubKeys : Bytes := [4, 2]

-- One of the grants again, without a limit and for the device with these keys.
def unlimited : AccessGrant :=
  { terms 0 5 with maxOpens := 0, deviceKeyHash := deployment.keccak256 devicePubKeys }

def granted : List Tx :=
  [⟨msg owner 1000, .register (.replicate 32 2) (.replicate 32 3)⟩,
    ⟨msg owner 1100, .grant unlimited []⟩]

def opening : Tx := ⟨msg owner 1200, .consumeOpen (unlimited.hashStruct deployment) devicePubKeys⟩

theorem granted_unlimited : (Chain.run deployment granted).policy.Unlimited deployment
    (msg owner 1200) (unlimited.hashStruct deployment) devicePubKeys :=
  ⟨by decide +kernel, by decide +kernel, by decide +kernel⟩

theorem first_open_lands :
    (∃ event p', (Chain.run deployment granted).policy.consumeOpen deployment (msg owner 1200)
      (unlimited.hashStruct deployment) devicePubKeys = .ok (event, p')) ∧
    ∀ b, (resume .edit 1000 5000 0 7).Shows b 1200 := by
  obtain ⟨hchain, hagent⟩ := unlimited_opens_iff deployment granted _ _ _ granted_unlimited
    .edit 1000 5000 1200 7
  exact ⟨hchain.mpr (by decide +kernel), hagent.mpr (by decide)⟩

-- The grant is opened as often as the counter goes, and then once more.
theorem not_unlimited_opens :
    (¬∀ d txs msg id devicePubKeys, (Chain.run d txs).policy.Unlimited d msg id devicePubKeys →
      ∃ event p', (Chain.run d txs).policy.consumeOpen d msg id devicePubKeys = .ok (event, p')) ∧
    ¬∀ permission notBefore expiry now opens, notBefore ≤ now → now < expiry →
      ∀ b, (resume permission notBefore expiry 0 opens).Shows b now := by
  constructor
  · intro h
    have hzero : ((Chain.run deployment granted).policy.grants
        (unlimited.hashStruct deployment)).opens.toNat = 0 := by decide +kernel
    have hrun : Chain.run deployment (granted ++ .replicate 65535 opening) =
        final (Chain.transact deployment) (.replicate 65535 opening)
          (Chain.run deployment granted) := final_append ..
    have hopened := granted_unlimited.opens 65535 (by rw [hzero]; decide)
    rw [← opening, ← hrun, hzero] at hopened
    have hbound := hopened.1.lands_iff.mp (h _ _ _ _ _ hopened.1)
    omega
  · intro h
    have hshows := h .edit 1000 5000 1200 65535 (by decide) (by decide)
    exact absurd (shows_resume_iff.mp hshows) (by decide)

end Reference

end Unlimited

end Session

end Zbacs
