import Zbacs.Core.Types
import Mathlib.Logic.Relation

namespace Zbacs.Session

open Zbacs.Core

inductive State where
  | requested
  | denied
  | granted
  | opened
  | resealing
  | closed
  | revoked
  | failed
deriving DecidableEq, Repr

namespace State

def plaintextAllowed : State → Bool
  | opened | resealing => true
  | _ => false

def isTerminal : State → Bool
  | denied | closed | revoked | failed => true
  | _ => false

end State

-- The machine values a problem is reported with.
inductive Problem where
  | notGranted
  | envelope
  | version
  | opensExhausted
  | workspace
  | damaged
  | missing
  | noOwnerKey
  | notSaving
  | alreadyOpen
  | noViewer
  | relayUnreachable
  | relayRefused
  | notSetUp
  | ownerDenies
  | alreadyAsking
  | mismatch
  | window
  | unreadable
  | session
  | wipe
  | cancelled
  | failed
deriving DecidableEq, Repr

def Problem.word : Problem → String
  | notGranted => "not_granted"
  | envelope => "envelope"
  | version => "version"
  | opensExhausted => "opens_exhausted"
  | workspace => "workspace"
  | damaged => "damaged"
  | missing => "missing"
  | noOwnerKey => "no_owner_key"
  | notSaving => "not_saving"
  | alreadyOpen => "already_open"
  | noViewer => "no_viewer"
  | relayUnreachable => "relay_unreachable"
  | relayRefused => "relay_refused"
  | notSetUp => "not_set_up"
  | ownerDenies => "owner_denies"
  | alreadyAsking => "already_asking"
  | mismatch => "mismatch"
  | window => "window"
  | unreadable => "unreadable"
  | session => "session"
  | wipe => "wipe"
  | cancelled => "cancelled"
  | failed => "failed"

inductive Event where
  | granted (permission : Permission) (notBefore expiry : UInt64) (maxOpens : UInt16)
  | denied
  | opened
  | saved
  | resealed (version : UInt32)
  | viewerExited
  | revoked
  | expired
  | failed (reason : Problem)
deriving DecidableEq, Repr

def Event.name : Event → String
  | granted .. => "Granted"
  | denied => "Denied"
  | opened => "Opened"
  | saved => "Saved"
  | resealed _ => "Resealed"
  | viewerExited => "ViewerExited"
  | revoked => "Revoked"
  | expired => "Expired"
  | failed _ => "Failed"

inductive AuditKind where
  | requested
  | denied
  | opened
  | sealed
  | failed
deriving DecidableEq, Repr

inductive Notice where
  | refused
  | changesDiscarded
  | revokedByOwner
  | expired
  | opensExhausted
  | resealed
  | problem
deriving DecidableEq, Repr

inductive Effect where
  | materialisePlaintext
  | markReadOnly
  | launchViewer
  | requestViewerClose
  | reseal
  | discardChanges
  | wipeWorkspace
  | audit (kind : AuditKind)
  | notify (notice : Notice)
deriving DecidableEq, Repr

inductive TransitionError where
  | terminal (state : State)
  | unexpected (state : State) (event : String)
  | notYetValid
  | alreadyExpired
  | denyIsNotAGrant
deriving DecidableEq, Repr

end Zbacs.Session

namespace Zbacs

open Zbacs.Core Zbacs.Session

structure Session where
  state : State
  permission : Option Permission
  notBefore : UInt64
  expiry : UInt64
  maxOpens : UInt16
  opens : UInt16
  version : Option UInt32
  dirty : Bool
deriving DecidableEq, Repr

namespace Session

def new : Session := ⟨.requested, none, 0, 0, 0, 0, none, false⟩

def resume (permission : Permission) (notBefore expiry : UInt64) (maxOpens opens : UInt16) :
    Session :=
  ⟨.granted, some permission, notBefore, expiry, maxOpens, opens, none, false⟩

def isExpired (s : Session) (now : UInt64) : Bool := s.permission.isSome && s.expiry ≤ now

-- The effects a state in which plaintext may exist asks for when it is left.
def ending (s : Session) (effects : List Effect) : List Effect :=
  if s.state.plaintextAllowed then effects else []

def apply (s : Session) (event : Event) (now : UInt64) :
    Except TransitionError (Session × List Effect) :=
  if s.state.isTerminal then .error (.terminal s.state)
  else match s.state, event with
    -- waiting for the owner
    | .requested, .granted permission notBefore expiry maxOpens =>
        if permission = .deny then .error .denyIsNotAGrant
        else if now < notBefore then .error .notYetValid
        else if expiry ≤ now then .error .alreadyExpired
        else .ok ({ s with
            permission := some permission
            notBefore := notBefore
            expiry := expiry
            maxOpens := maxOpens
            state := .granted }, [.materialisePlaintext])
    | .requested, .denied => .ok ({ s with state := .denied }, [.audit .denied, .notify .refused])
    -- opening
    | .granted, .opened =>
        if s.maxOpens ≠ 0 ∧ s.maxOpens ≤ s.opens then
          .ok ({ s with state := .closed }, [.wipeWorkspace, .notify .opensExhausted])
        else .ok ({ s with opens := s.opens + 1, state := .opened },
          (if s.permission = some .readOnly then [.markReadOnly] else []) ++
            [.launchViewer, .audit .opened])
    -- while open
    | .opened, .saved =>
        if s.permission = some .edit then
          .ok ({ s with dirty := true, state := .resealing }, [.reseal])
        else .ok (s, [.discardChanges, .notify .changesDiscarded])
    | .resealing, .resealed version =>
        .ok ({ s with version := some version, dirty := false, state := .opened },
          [.audit .sealed, .notify .resealed])
    | .opened, .viewerExited => .ok ({ s with state := .closed }, [.wipeWorkspace])
    -- ended from outside
    | _, .revoked => .ok ({ s with dirty := false, state := .revoked },
        s.ending [.requestViewerClose, .wipeWorkspace] ++ [.notify .revokedByOwner])
    | _, .expired => .ok ({ s with dirty := false, state := .closed },
        s.ending [.requestViewerClose, .wipeWorkspace] ++ [.notify .expired])
    | _, .failed _ => .ok ({ s with state := .failed },
        s.ending [.wipeWorkspace] ++ [.audit .failed, .notify .problem])
    | state, event => .error (.unexpected state event.name)

-- `let _ = session.apply(..)`: an event that is refused changes nothing.
def applied (s : Session) (event : Event) (now : UInt64) : Session :=
  match s.apply event now with
  | .error _ => s
  | .ok (s', _) => s'

-- What one event can do to a session, case by case.
inductive Step (now : UInt64) (s : Session) : Event → Session → List Effect → Prop where
  | granted {permission notBefore expiry maxOpens} (hstate : s.state = .requested)
      (hdeny : permission ≠ .deny) (hopen : notBefore ≤ now) (hclose : now < expiry) :
      Step now s (.granted permission notBefore expiry maxOpens)
        { s with permission := some permission, notBefore := notBefore, expiry := expiry,
                 maxOpens := maxOpens, state := .granted }
        [.materialisePlaintext]
  | denied (hstate : s.state = .requested) :
      Step now s .denied { s with state := .denied } [.audit .denied, .notify .refused]
  | exhausted (hstate : s.state = .granted) (hspent : s.maxOpens ≠ 0 ∧ s.maxOpens ≤ s.opens) :
      Step now s .opened { s with state := .closed } [.wipeWorkspace, .notify .opensExhausted]
  | opened (hstate : s.state = .granted) (hbudget : s.maxOpens = 0 ∨ s.opens < s.maxOpens) :
      Step now s .opened { s with opens := s.opens + 1, state := .opened }
        ((if s.permission = some .readOnly then [.markReadOnly] else []) ++
          [.launchViewer, .audit .opened])
  | saved (hstate : s.state = .opened) (hedit : s.permission = some .edit) :
      Step now s .saved { s with dirty := true, state := .resealing } [.reseal]
  | discarded (hstate : s.state = .opened) (hedit : s.permission ≠ some .edit) :
      Step now s .saved s [.discardChanges, .notify .changesDiscarded]
  | resealed {version} (hstate : s.state = .resealing) :
      Step now s (.resealed version)
        { s with version := some version, dirty := false, state := .opened }
        [.audit .sealed, .notify .resealed]
  | viewerExited (hstate : s.state = .opened) :
      Step now s .viewerExited { s with state := .closed } [.wipeWorkspace]
  | revoked (hlive : s.state.isTerminal = false) :
      Step now s .revoked { s with dirty := false, state := .revoked }
        (s.ending [.requestViewerClose, .wipeWorkspace] ++ [.notify .revokedByOwner])
  | expired (hlive : s.state.isTerminal = false) :
      Step now s .expired { s with dirty := false, state := .closed }
        (s.ending [.requestViewerClose, .wipeWorkspace] ++ [.notify .expired])
  | failed {reason} (hlive : s.state.isTerminal = false) :
      Step now s (.failed reason) { s with state := .failed }
        (s.ending [.wipeWorkspace] ++ [.audit .failed, .notify .problem])

variable {s s' : Session} {event : Event} {now : UInt64} {effects : List Effect}

-- Nothing happens to a session that has ended.
theorem apply_terminal (h : s.state.isTerminal) : s.apply event now = .error (.terminal s.state) :=
  if_pos h

theorem applied_terminal (h : s.state.isTerminal) : s.applied event now = s := by
  simp [applied, apply_terminal h]

-- A session that has not ended takes each way of ending it from outside.
theorem apply_failed (h : s.state.isTerminal = false) (reason : Problem) :
    s.apply (.failed reason) now = .ok ({ s with state := .failed },
      s.ending [.wipeWorkspace] ++ [.audit .failed, .notify .problem]) := by
  rcases s with ⟨state, _⟩
  cases state <;> first | rfl | cases h

theorem apply_revoked (h : s.state.isTerminal = false) :
    s.apply .revoked now = .ok ({ s with dirty := false, state := .revoked },
      s.ending [.requestViewerClose, .wipeWorkspace] ++ [.notify .revokedByOwner]) := by
  rcases s with ⟨state, _⟩
  cases state <;> first | rfl | cases h

theorem apply_expired (h : s.state.isTerminal = false) :
    s.apply .expired now = .ok ({ s with dirty := false, state := .closed },
      s.ending [.requestViewerClose, .wipeWorkspace] ++ [.notify .expired]) := by
  rcases s with ⟨state, _⟩
  cases state <;> first | rfl | cases h

-- The other events, each in the one state that takes it.
theorem apply_requested {permission : Permission} {notBefore expiry : UInt64} {maxOpens : UInt16}
    (h : s.state = .requested) :
    s.apply (.granted permission notBefore expiry maxOpens) now =
      if permission = .deny then .error .denyIsNotAGrant
      else if now < notBefore then .error .notYetValid
      else if expiry ≤ now then .error .alreadyExpired
      else .ok ({ s with permission := some permission, notBefore := notBefore, expiry := expiry,
                         maxOpens := maxOpens, state := .granted }, [.materialisePlaintext]) := by
  rcases s with ⟨state, _⟩
  cases h
  rfl

theorem apply_open (h : s.state = .granted) :
    s.apply .opened now =
      if s.maxOpens ≠ 0 ∧ s.maxOpens ≤ s.opens then
        .ok ({ s with state := .closed }, [.wipeWorkspace, .notify .opensExhausted])
      else .ok ({ s with opens := s.opens + 1, state := .opened },
        (if s.permission = some .readOnly then [.markReadOnly] else []) ++
          [.launchViewer, .audit .opened]) := by
  rcases s with ⟨state, _⟩
  cases h
  rfl

theorem apply_save (h : s.state = .opened) :
    s.apply .saved now =
      if s.permission = some .edit then
        .ok ({ s with dirty := true, state := .resealing }, [.reseal])
      else .ok (s, [.discardChanges, .notify .changesDiscarded]) := by
  rcases s with ⟨state, _⟩
  cases h
  rfl

theorem apply_resealed (h : s.state = .resealing) (version : UInt32) :
    s.apply (.resealed version) now =
      .ok ({ s with version := some version, dirty := false, state := .opened },
        [.audit .sealed, .notify .resealed]) := by
  rcases s with ⟨state, _⟩
  cases h
  rfl

theorem apply_viewerExited (h : s.state = .opened) :
    s.apply .viewerExited now = .ok ({ s with state := .closed }, [.wipeWorkspace]) := by
  rcases s with ⟨state, _⟩
  cases h
  rfl

-- The state in which an event that does not come from outside is taken.
theorem state_of_apply (h : s.apply event now = .ok (s', effects)) : match event with
    | .granted .. | .denied => s.state = .requested
    | .opened => s.state = .granted
    | .saved | .viewerExited => s.state = .opened
    | .resealed _ => s.state = .resealing
    | .revoked | .expired | .failed _ => s.state.isTerminal = false := by
  rcases s with ⟨state, _⟩
  cases event <;> cases state <;> first | rfl | cases h

theorem step_of_apply (h : s.apply event now = .ok (s', effects)) : Step now s event s' effects := by
  have hstate := state_of_apply h
  cases event with
  | granted permission notBefore expiry maxOpens =>
      rw [apply_requested hstate] at h
      split_ifs at h with hdeny hearly hlate
      cases h
      exact .granted hstate hdeny (UInt64.not_lt.mp hearly) (UInt64.not_le.mp hlate)
  | denied =>
      rcases s with ⟨state, _⟩
      cases hstate
      cases h
      exact .denied rfl
  | opened =>
      rw [apply_open hstate] at h
      by_cases hspent : s.maxOpens ≠ 0 ∧ s.maxOpens ≤ s.opens
      · rw [if_pos hspent] at h
        cases h
        exact .exhausted hstate hspent
      · rw [if_neg hspent] at h
        cases h
        rw [not_and_or, not_not, UInt16.not_le] at hspent
        exact .opened hstate hspent
  | saved =>
      rw [apply_save hstate] at h
      split_ifs at h with hedit
      · cases h
        exact .saved hstate hedit
      · cases h
        exact .discarded hstate hedit
  | resealed version =>
      rw [apply_resealed hstate] at h
      cases h
      exact .resealed hstate
  | viewerExited =>
      rw [apply_viewerExited hstate] at h
      cases h
      exact .viewerExited hstate
  | revoked =>
      rw [apply_revoked hstate] at h
      cases h
      exact .revoked hstate
  | expired =>
      rw [apply_expired hstate] at h
      cases h
      exact .expired hstate
  | failed reason =>
      rw [apply_failed hstate] at h
      cases h
      exact .failed hstate

-- One event taken at some time, and any number of them.
def Moves (s s' : Session) : Prop := ∃ event now effects, s.apply event now = .ok (s', effects)

def Reaches : Session → Session → Prop := Relation.ReflTransGen Moves

-- What stays true of a session once it has taken a grant.
structure Under (permission : Permission) (maxOpens : UInt16) (s : Session) : Prop where
  taken : s.state ≠ .requested
  permission_eq : s.permission = some permission
  maxOpens_eq : s.maxOpens = maxOpens
  budget : maxOpens ≠ 0 → s.opens ≤ maxOpens

theorem Under.step {permission : Permission} {maxOpens : UInt16} (hs : s.Under permission maxOpens)
    (h : Step now s event s' effects) : s'.Under permission maxOpens := by
  obtain ⟨htaken, hperm, hmax, hbudget⟩ := hs
  cases h with
  | granted hstate | denied hstate => exact absurd hstate htaken
  | opened hstate hroom =>
      refine ⟨by simp, hperm, hmax, fun hne => ?_⟩
      have hlt : s.opens < maxOpens := by
        rcases hroom with hzero | hlt
        · exact absurd (hmax.symm.trans hzero) hne
        · rwa [hmax] at hlt
      rw [UInt16.lt_iff_toNat_lt] at hlt
      have hbound := maxOpens.toNat_lt
      rw [UInt16.le_iff_toNat_le, UInt16.toNat_add, UInt16.toNat_one, Nat.mod_eq_of_lt (by omega)]
      omega
  | discarded => exact ⟨htaken, hperm, hmax, hbudget⟩
  | exhausted | saved | resealed | viewerExited | revoked | expired | failed =>
      exact ⟨by simp, hperm, hmax, hbudget⟩

theorem Under.reaches {permission : Permission} {maxOpens : UInt16}
    (hs : s.Under permission maxOpens) (h : s.Reaches s') : s'.Under permission maxOpens := by
  induction h with
  | refl => exact hs
  | tail _ hmove ih =>
      obtain ⟨event, now, effects, happly⟩ := hmove
      exact ih.step (step_of_apply happly)

-- A fresh session that takes a grant is under it.
theorem under_of_granted {permission : Permission} {notBefore expiry : UInt64} {maxOpens : UInt16}
    (h : new.apply (.granted permission notBefore expiry maxOpens) now = .ok (s', effects)) :
    s'.Under permission maxOpens ∧ notBefore ≤ now ∧ now < expiry := by
  cases step_of_apply h with
  | granted _ _ hopen hclose =>
      exact ⟨⟨by simp, rfl, rfl, fun _ => UInt16.zero_le⟩, hopen, hclose⟩

-- A grant is taken inside its window.
theorem apply_granted {permission : Permission} {notBefore expiry : UInt64} {maxOpens : UInt16}
    (h : s.state = .requested) (hdeny : permission ≠ .deny) (hopen : notBefore ≤ now)
    (hclose : now < expiry) :
    s.apply (.granted permission notBefore expiry maxOpens) now =
      .ok ({ s with permission := some permission, notBefore := notBefore, expiry := expiry,
                    maxOpens := maxOpens, state := .granted }, [.materialisePlaintext]) := by
  rw [apply_requested h, if_neg hdeny, if_neg (UInt64.not_lt.mpr hopen),
    if_neg (UInt64.not_le.mpr hclose)]

-- An open within the budget is counted.
theorem apply_opened (h : s.state = .granted) (hbudget : s.maxOpens = 0 ∨ s.opens < s.maxOpens) :
    s.apply .opened now = .ok ({ s with opens := s.opens + 1, state := .opened },
      (if s.permission = some .readOnly then [.markReadOnly] else []) ++
        [.launchViewer, .audit .opened]) := by
  have hroom : ¬(s.maxOpens ≠ 0 ∧ s.maxOpens ≤ s.opens) := by
    rw [not_and_or, not_not, UInt16.not_le]
    exact hbudget
  rw [apply_open h, if_neg hroom]

theorem apply_saved (h : s.state = .opened) (hedit : s.permission = some .edit) :
    s.apply .saved now = .ok ({ s with dirty := true, state := .resealing }, [.reseal]) := by
  rw [apply_save h, if_pos hedit]

theorem apply_saved_discards (h : s.state = .opened) (hedit : s.permission ≠ some .edit) :
    s.apply .saved now = .ok (s, [.discardChanges, .notify .changesDiscarded]) := by
  rw [apply_save h, if_neg hedit]

theorem applied_resealed (h : s.state = .resealing) (version : UInt32) :
    s.applied (.resealed version) now =
      { s with version := some version, dirty := false, state := .opened } := by
  rw [applied, apply_resealed h]

end Session

end Zbacs
