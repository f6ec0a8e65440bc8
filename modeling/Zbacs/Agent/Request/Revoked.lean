import Zbacs.Agent.Strict
import Zbacs.Contracts.AccessPolicy

namespace Zbacs.Agent

open Zbacs.Lib Zbacs.Core Zbacs.Proto Zbacs.Session

-- What a watch takes for the owner's revocation.

-- Where a node answers from: the policy contract, and the time of the node's latest block.
structure Node where
  timestamp : Nat
  policy : Contracts.AccessPolicy

def Node.isGrantValid (n : Node) (grantId : FixedBytes 32) : ChainAnswer :=
  if n.policy.isValid n.timestamp grantId then .valid else .invalid

-- One round of a watch, with what is behind its two answers: the inbox, unless the read fails, and
-- a node, unless none answers.
structure WatchRound where
  cancelled : Bool
  inbox : Option (List Proto.Envelope)
  node : Option Node
  now : UInt64

def WatchRound.poll (w : WatchRound) : Poll :=
  ⟨w.cancelled, 0, w.inbox, fun grantId => match w.node with
    | none => .unreachable
    | some n => n.isGrantValid grantId, w.now⟩

section

variable (L : Libraries) (chain : Bool) (grantId : FixedBytes 32) (expiry : UInt64)

def watch (rounds : List WatchRound) (session : Zbacs.Session) : Watched :=
  watchGrant L chain grantId expiry (rounds.map WatchRound.poll) session []

def WatchRound.RevokeArrived (w : WatchRound) : Prop :=
  ∃ e ∈ w.inbox.getD [], isRevokeFor L e grantId = true

def WatchRound.RevokeRecorded (w : WatchRound) : Prop :=
  ∃ n, w.node = some n ∧ (n.policy.grants grantId).revoked = true

-- The owner pulled the grant back, in one of the two ways there are.
def PulledByOwner (rounds : List WatchRound) : Prop :=
  ∃ w ∈ rounds, w.RevokeArrived L grantId ∨ w.RevokeRecorded grantId

-- The round in which a watch says the owner pulled the grant back.
def RevokedOnlyByOwner (rounds : List WatchRound) (session : Zbacs.Session) : Prop :=
  ∀ pre w, pre ++ [w] <+: rounds → (watch L chain grantId expiry pre session).ended = none →
    (watch L chain grantId expiry (pre ++ [w]) session).ended = some .revoked →
      PulledByOwner L grantId (pre ++ [w])

-- The grant is on the record, inside its window by the time of the block, with opens left.
def Node.Stands (n : Node) : Prop :=
  (n.policy.grants grantId).owner ≠ .zero ∧
    (n.policy.grants grantId).notBefore.toNat ≤ n.timestamp ∧
    n.timestamp < (n.policy.grants grantId).expiry.toNat ∧
    ((n.policy.grants grantId).maxOpens = 0 ∨
      (n.policy.grants grantId).opens < (n.policy.grants grantId).maxOpens)

-- A round that reaches the node or the inbox.
def WatchRound.Live (w : WatchRound) : Prop := w.cancelled = false ∧ w.now < expiry

-- A round after which the watch goes on.
def WatchRound.Quiet (w : WatchRound) : Prop :=
  w.Live expiry ∧ ¬ w.RevokeArrived L grantId ∧
    ∀ n, chain = true → w.node = some n → n.Stands grantId ∧ (n.policy.grants grantId).revoked = false

-- A node that is asked finds the grant standing, unless the owner did pull it back.
def StandsWhileAsked (rounds : List WatchRound) : Prop :=
  ∀ pre w n, pre ++ [w] <+: rounds → (∀ q ∈ pre, q.Quiet L chain grantId expiry) → w.Live expiry →
    chain = true → w.node = some n → n.Stands grantId ∨ w.RevokeRecorded grantId ∨
      w.RevokeArrived L grantId

end

section

variable {L : Libraries} {chain : Bool} {grantId : FixedBytes 32} {expiry : UInt64}

theorem Node.isGrantValid_eq {n : Node} : n.isGrantValid grantId = .valid ↔
    n.Stands grantId ∧ (n.policy.grants grantId).revoked = false := by
  unfold Node.isGrantValid Node.Stands
  constructor
  · intro h
    split_ifs at h with hvalid
    obtain ⟨howner, hrevoked, hwindow⟩ := Contracts.AccessPolicy.isValid_eq_true hvalid
    exact ⟨⟨howner, hwindow⟩, hrevoked⟩
  · rintro ⟨⟨howner, hopen, hlate, hopens⟩, hrevoked⟩
    rw [if_pos]
    have hbudget : ¬((n.policy.grants grantId).maxOpens ≠ 0 ∧
        (n.policy.grants grantId).opens ≥ (n.policy.grants grantId).maxOpens) := by
      rintro ⟨hmax, hspent⟩
      exact UInt16.not_le.mpr (hopens.resolve_left hmax) hspent
    simp [Contracts.AccessPolicy.isValid, howner, hrevoked, hopen, hlate, hbudget]

theorem Node.isGrantValid_ne {n : Node} (h : n.isGrantValid grantId ≠ .valid) :
    n.isGrantValid grantId = .invalid := by
  unfold Node.isGrantValid at h ⊢
  split_ifs with hvalid
  · exact absurd (if_pos hvalid) h
  · rfl

theorem WatchRound.poll_inbox (w : WatchRound) :
    (w.poll.inbox.getD []).any (isRevokeFor L · grantId) = true ↔ w.RevokeArrived L grantId := by
  simp [WatchRound.poll, WatchRound.RevokeArrived]

-- What the chain makes of one round.
def WatchRound.Denied (w : WatchRound) (chain : Bool) (grantId : FixedBytes 32) : Prop :=
  chain = true ∧ ∃ n, w.node = some n ∧ n.isGrantValid grantId = .invalid

theorem WatchRound.checked_eq (w : WatchRound) :
    (if chain then w.poll.chain grantId else .unreachable) = ChainAnswer.invalid ↔
      w.Denied chain grantId := by
  cases hn : w.node <;> cases chain <;> simp [WatchRound.poll, WatchRound.Denied, hn]

theorem WatchRound.quiet_iff {w : WatchRound} : w.Quiet L chain grantId expiry ↔
    w.Live expiry ∧ ¬ w.Denied chain grantId ∧ ¬ w.RevokeArrived L grantId := by
  unfold WatchRound.Quiet
  rw [and_comm (a := ¬ w.Denied chain grantId)]
  refine and_congr_right fun _ => and_congr_right fun _ => ?_
  constructor
  · rintro hstands ⟨hchain, n, hn, hinvalid⟩
    rw [Node.isGrantValid_eq.mpr (hstands n hchain hn)] at hinvalid
    cases hinvalid
  · intro hdenied n hchain hn
    by_contra hfalls
    exact hdenied ⟨hchain, n, hn,
      Node.isGrantValid_ne fun hvalid => hfalls (Node.isGrantValid_eq.mp hvalid)⟩

-- A quiet round leaves everything to the ones after it.
theorem watch_cons_of_quiet {w : WatchRound} (hquiet : w.Quiet L chain grantId expiry)
    (rest : List WatchRound) (session : Zbacs.Session) :
    (watch L chain grantId expiry (w :: rest) session).ended =
      (watch L chain grantId expiry rest session).ended := by
  obtain ⟨⟨hcancel, hnow⟩, hdenied, hinbox⟩ := WatchRound.quiet_iff.mp hquiet
  rw [← WatchRound.checked_eq] at hdenied
  rw [← w.poll_inbox] at hinbox
  simp only [watch, List.map_cons, watchGrant, show w.poll.cancelled = false from hcancel,
    Bool.false_eq_true, if_false, if_neg (UInt64.not_le.mpr hnow : ¬ expiry ≤ w.poll.now),
    if_neg hdenied, if_neg hinbox]
  exact watchGrant_ended ..

-- Any other round ends the watch.
theorem watch_cons_ended {w : WatchRound} (hquiet : ¬ w.Quiet L chain grantId expiry)
    (rest : List WatchRound) (session : Zbacs.Session) :
    (watch L chain grantId expiry (w :: rest) session).ended ≠ none ∧
      ((watch L chain grantId expiry (w :: rest) session).ended = some .revoked ↔
        w.Live expiry ∧ (w.Denied chain grantId ∨ w.RevokeArrived L grantId)) := by
  simp only [watch, List.map_cons, watchGrant]
  by_cases hcancel : w.cancelled = true
  · rw [if_pos (show w.poll.cancelled = true from hcancel)]
    exact ⟨by simp, by simp [WatchRound.Live, hcancel]⟩
  · rw [if_neg (show ¬ w.poll.cancelled = true from hcancel)]
    by_cases hexpired : expiry ≤ w.now
    · rw [if_pos (show expiry ≤ w.poll.now from hexpired)]
      exact ⟨by simp, by simp [WatchRound.Live, UInt64.not_lt.mpr hexpired]⟩
    · rw [if_neg (show ¬ expiry ≤ w.poll.now from hexpired)]
      have hlive : w.Live expiry := ⟨Bool.not_eq_true _ ▸ hcancel, UInt64.not_le.mp hexpired⟩
      by_cases hdenied : w.Denied chain grantId
      · rw [if_pos (w.checked_eq.mpr hdenied)]
        exact ⟨by simp, by simp [hlive, hdenied]⟩
      · by_cases hinbox : w.RevokeArrived L grantId
        · rw [if_neg (w.checked_eq.not.mpr hdenied), if_pos (w.poll_inbox.mpr hinbox)]
          exact ⟨by simp, by simp [hlive, hinbox]⟩
        · exact absurd (WatchRound.quiet_iff.mpr ⟨hlive, hdenied, hinbox⟩) hquiet

theorem watch_append_of_quiet {pre : List WatchRound} (hpre : ∀ q ∈ pre, q.Quiet L chain grantId expiry)
    (rest : List WatchRound) (session : Zbacs.Session) :
    (watch L chain grantId expiry (pre ++ rest) session).ended =
      (watch L chain grantId expiry rest session).ended := by
  induction pre with
  | nil => rfl
  | cons q pre ih =>
      rw [List.forall_mem_cons] at hpre
      rw [List.cons_append, watch_cons_of_quiet hpre.1, ih hpre.2]

theorem watch_on_iff {rounds : List WatchRound} {session : Zbacs.Session} :
    (watch L chain grantId expiry rounds session).ended = none ↔
      ∀ q ∈ rounds, q.Quiet L chain grantId expiry := by
  constructor
  · induction rounds with
    | nil => exact fun _ q hq => absurd hq List.not_mem_nil
    | cons w rest ih =>
        intro hon
        by_cases hquiet : w.Quiet L chain grantId expiry
        · rw [watch_cons_of_quiet hquiet] at hon
          exact List.forall_mem_cons.mpr ⟨hquiet, ih hon⟩
        · exact absurd hon (watch_cons_ended hquiet rest session).1
  · intro hquiet
    have hall := watch_append_of_quiet hquiet [] session
    rw [List.append_nil] at hall
    exact hall.trans rfl

-- A watch that has come as far as this round says revoked if the node denies the grant or a
-- revoke for it is in the inbox.
theorem watch_last {pre : List WatchRound} (hpre : ∀ q ∈ pre, q.Quiet L chain grantId expiry)
    {w : WatchRound} {session : Zbacs.Session} :
    (watch L chain grantId expiry (pre ++ [w]) session).ended = some .revoked ↔
      w.Live expiry ∧ (w.Denied chain grantId ∨ w.RevokeArrived L grantId) := by
  rw [watch_append_of_quiet hpre]
  by_cases hquiet : w.Quiet L chain grantId expiry
  · rw [watch_cons_of_quiet hquiet]
    obtain ⟨-, hdenied, hinbox⟩ := WatchRound.quiet_iff.mp hquiet
    constructor
    · rintro ⟨⟩
    · rintro ⟨-, h⟩
      exact absurd h (not_or.mpr ⟨hdenied, hinbox⟩)
  · exact (watch_cons_ended hquiet [] session).2

-- Nothing was pulled back in a quiet round.
theorem WatchRound.Quiet.recorded {w : WatchRound} (h : w.Quiet L chain grantId expiry)
    (hchain : chain = true) : ¬ w.RevokeRecorded grantId := by
  rintro ⟨n, hn, hrevoked⟩
  rw [(h.2.2 n hchain hn).2] at hrevoked
  cases hrevoked

theorem RevokedOnlyByOwner.stands {rounds : List WatchRound} {session : Zbacs.Session}
    (h : RevokedOnlyByOwner L chain grantId expiry rounds session) :
    StandsWhileAsked L chain grantId expiry rounds := by
  intro pre w n hround hpre hlive hchain hn
  by_contra hno
  rw [not_or, not_or] at hno
  obtain ⟨hfalls, hrecorded, harrived⟩ := hno
  have hdenied : w.Denied chain grantId :=
    ⟨hchain, n, hn, Node.isGrantValid_ne fun hvalid => hfalls (Node.isGrantValid_eq.mp hvalid).1⟩
  obtain ⟨q, hq, hpulled⟩ := h pre w hround (watch_on_iff.mpr hpre)
    ((watch_last hpre).mpr ⟨hlive, .inl hdenied⟩)
  rcases List.mem_append.mp hq with hq | hq
  · exact hpulled.elim (hpre q hq).2.1 ((hpre q hq).recorded hchain)
  · rw [List.mem_singleton] at hq
    subst hq
    exact hpulled.elim harrived hrecorded

theorem StandsWhileAsked.revokedOnlyByOwner {rounds : List WatchRound}
    (h : StandsWhileAsked L chain grantId expiry rounds) (session : Zbacs.Session) :
    RevokedOnlyByOwner L chain grantId expiry rounds session := by
  intro pre w hround hon hended
  have hpre := watch_on_iff.mp hon
  refine ⟨w, by simp, ?_⟩
  obtain ⟨hlive, ⟨hchain, n, hn, hinvalid⟩ | harrived⟩ := (watch_last hpre).mp hended
  · rcases h pre w n hround hpre hlive hchain hn with hstand | hrecorded | harrived
    · refine .inr ⟨n, hn, ?_⟩
      by_contra hrevoked
      rw [Node.isGrantValid_eq.mpr ⟨hstand, Bool.not_eq_true _ ▸ hrevoked⟩] at hinvalid
      cases hinvalid
    · exact .inr hrecorded
    · exact .inl harrived
  · exact .inl harrived

-- The watch says revoked only where the owner did it, exactly if the node's no never means
-- anything else: a grant that is not on the record, not open yet by the time of the block, past
-- its time there, or used up.
theorem watch_revoked_iff (rounds : List WatchRound) (session : Zbacs.Session) :
    RevokedOnlyByOwner L chain grantId expiry rounds session ↔
      StandsWhileAsked L chain grantId expiry rounds :=
  ⟨RevokedOnlyByOwner.stands, fun h => h.revokedOnlyByOwner session⟩

end

namespace Reference

-- A round at 130 on a machine with a link to a chain that knows of no grant.
def unrecorded : WatchRound := ⟨false, some [], some ⟨130, .deployed⟩, 130⟩

-- The answer names no transaction and is accepted on a machine with a link; the first round of the
-- watch asks the chain about it all the same.
theorem revoked_by_nobody : ∃ (target : Target) (asked : Asked),
    ask libraries (asking target true) sending 90 [poll (terms target .edit 1) none .unreachable] =
      some asked ∧ asked.outcome = .granted .edit 200 ∧
    asked.held.terms = some (terms target .edit 1) ∧
    ¬ RevokedOnlyByOwner libraries true ((terms target .edit 1).structHash libraries) 200 [unrecorded]
      asked.held.session := by
  let target : Target := ⟨.replicate 32 5, .replicate 32 6, [1]⟩
  obtain ⟨asked, hask, hgranted, hheld, -⟩ := @ask_answer target .edit 1 (.inr rfl) none true
    .unreachable (by decide) 90
  refine ⟨target, asked, hask, hgranted, by rw [hheld, granted], fun hsaid => ?_⟩
  rcases hsaid.stands [] unrecorded ⟨130, .deployed⟩ ⟨[], rfl⟩
    (fun q hq => absurd hq List.not_mem_nil) ⟨rfl, by decide⟩ rfl rfl
    with ⟨howner, -⟩ | ⟨n, hn, hrevoked⟩ | ⟨e, he, -⟩
  · exact howner rfl
  · cases hn
    cases hrevoked
  · cases he

end Reference

end Zbacs.Agent
