import Zbacs.Agent.Open.Saving
import Zbacs.Agent.RunSession

namespace Zbacs.Agent

open Zbacs.Lib Zbacs.Core Zbacs.Proto Zbacs.Session

section

variable (L : Libraries) (running : Running L) (mat : Materialised) (expiry : UInt64)

-- The grant as a save finds it: an edit session that the watcher has just moved on.
def Held.saving (held : Held) : Held :=
  { held with session := { held.session with dirty := true, state := .resealing } }

-- The save that one round makes, in the state the round starts in.
def saveIn (round : Round) (s : LoopState) : SaveStep :=
  save L running.sealed mat s.held.saving running.device running.signer round.save (round.disk s.fs)

-- Whether a round comes to a save: it does not end the session first, the watcher
-- reports one, and the grant is for editing.
def MakesSave (round : Round) (s : LoopState) : Prop :=
  roundEnd expiry round = none ∧ round.event = some .saved ∧ s.held.session.permission = some .edit

-- Every save that the loop comes to becomes a version.
def SavesSucceed (rounds : List Round) (s : LoopState) : Prop :=
  ∀ pre round post, rounds = pre ++ round :: post →
    ∀ s', runRounds L running mat expiry pre s = (s', none) → MakesSave expiry round s' →
      ∃ saved, (saveIn L running mat round s').result = .ok saved

end

variable {L : Libraries} {running : Running L} {mat : Materialised} {expiry : UInt64}

theorem runRounds_append (pre post : List Round) (s : LoopState) :
    runRounds L running mat expiry (pre ++ post) s =
      match runRounds L running mat expiry pre s with
      | (s, some ended) => (s, some ended)
      | (s, none) => runRounds L running mat expiry post s := by
  induction pre generalizing s with
  | nil => rfl
  | cons round pre ih =>
      rw [List.cons_append, runRounds, runRounds]
      rcases runRound L running mat expiry round s with ⟨s', none | ended⟩
      · exact ih s'
      · rfl

-- One more round of a session that is still running.
theorem runRounds_concat {pre : List Round} {round : Round} {s before after : LoopState}
    (hpre : runRounds L running mat expiry pre s = (before, none)) :
    runRounds L running mat expiry (pre ++ [round]) s = (after, none) ↔
      runRound L running mat expiry round before = (after, none) := by
  rw [runRounds_append, hpre]
  simp only [runRounds]
  rcases runRound L running mat expiry round before with ⟨s', none | ended⟩ <;> simp

-- Whether the loop comes to a reseal when it hears of a save.
def LoopState.reseals (s : LoopState) (round : Round) : Bool :=
  match s.held.session.apply .saved round.now with
  | .ok (_, effects) => decide (.reseal ∈ effects)
  | .error _ => false

theorem onSaved_idle {round : Round} {s : LoopState} (h : s.reseals round = false) :
    (onSaved L running mat round s).1.fs = s.fs ∧ (onSaved L running mat round s).2 = none := by
  unfold LoopState.reseals at h
  unfold onSaved
  cases happly : s.held.session.apply .saved round.now with
  | error e => exact ⟨rfl, rfl⟩
  | ok res =>
      simp only [happly, decide_eq_false_iff_not] at h
      simp [h]

-- A reseal ends the session, or is a save that went through.
theorem onSaved_reseals {round : Round} {s : LoopState} (h : s.reseals round = true) :
    ∃ held, (onSaved L running mat round s).1.fs =
        (save L running.sealed mat held running.device running.signer round.save s.fs).fs ∧
      ((∃ e, (onSaved L running mat round s).2 = some (.failed e)) ∨
        ((onSaved L running mat round s).2 = none ∧ ∃ saved,
          (save L running.sealed mat held running.device running.signer round.save s.fs).result =
            .ok saved)) := by
  unfold LoopState.reseals at h
  unfold onSaved
  cases happly : s.held.session.apply .saved round.now with
  | error e =>
      rw [happly] at h
      cases h
  | ok res =>
      obtain ⟨session, effects⟩ := res
      simp only [happly, decide_eq_true_eq] at h
      refine ⟨{ s.held with session := session }, ?_⟩
      simp only [h, if_true]
      cases (save L running.sealed mat { s.held with session := session } running.device running.signer
        round.save s.fs).result with
      | error e => exact ⟨rfl, .inl ⟨e, rfl⟩⟩
      | ok saved => exact ⟨rfl, .inr ⟨rfl, saved, rfl⟩⟩

-- All it changes on disk is the container, and the temporary file beside it.
theorem lookup_onSaved {round : Round} {s : LoopState} {q : Path} (hsealed : q ≠ running.sealed)
    (htmp : q ≠ withExtension running.sealed "zbacs.tmp") :
    (onSaved L running mat round s).1.fs.lookup q = s.fs.lookup q := by
  cases h : s.reseals round with
  | false => rw [(onSaved_idle h).1]
  | true =>
      obtain ⟨held, hfs, -⟩ := @onSaved_reseals L running mat round s h
      rw [hfs]
      exact lookup_save hsealed htmp

theorem digits_plain (n : Nat) : ∀ c ∈ (toString n).toList, c ≠ '/' ∧ c ≠ '\\' ∧ c ≠ '.' := by
  intro c hc
  have hmem : c ∈ Nat.toDigits 10 n := by simpa [toString, Nat.repr] using hc
  have hdigit := Nat.isDigit_of_mem_toDigits (by decide) (by decide) hmem
  refine ⟨?_, ?_, ?_⟩ <;> rintro rfl <;> exact absurd hdigit (by decide)

theorem goodId_sessionIdOf (now : UInt64) (pid : Nat) : Workspace.GoodId (sessionIdOf now pid) := by
  constructor
  · intro h
    have := congrArg String.length h
    simp [sessionIdOf] at this
  · rw [List.any_eq_false]
    intro c hc
    simp only [sessionIdOf, String.toList_append, List.mem_append] at hc
    have hplain : c ≠ '/' ∧ c ≠ '\\' ∧ c ≠ '.' := by
      rcases hc with ((hc | hc) | hc) | hc
      · obtain rfl : c = 's' := by simpa using hc
        decide
      · exact digits_plain _ c hc
      · obtain rfl : c = '-' := by simpa using hc
        decide
      · exact digits_plain _ c hc
    simp [hplain]

-- The first round, and then the others if it does not end the session.
theorem savesSucceed_cons {round : Round} {rest : List Round} {s : LoopState} :
    SavesSucceed L running mat expiry (round :: rest) s ↔
      (MakesSave expiry round s → ∃ saved, (saveIn L running mat round s).result = .ok saved) ∧
      ∀ s', runRound L running mat expiry round s = (s', none) →
        SavesSucceed L running mat expiry rest s' := by
  constructor
  · intro h
    refine ⟨h [] round rest rfl s rfl, ?_⟩
    intro s' hround pre r post hrest s'' hpre
    refine h (round :: pre) r post (by rw [hrest, List.cons_append]) s'' ?_
    rw [runRounds, hround]
    exact hpre
  · rintro ⟨hfirst, hothers⟩ pre r post hsplit s'' hpre
    cases pre with
    | nil =>
        cases hsplit
        cases hpre
        exact hfirst
    | cons r' pre =>
        rw [List.cons_append] at hsplit
        cases hsplit
        rw [runRounds] at hpre
        rcases hround : runRound L running mat expiry round s with ⟨s', none | ended⟩
        · rw [hround] at hpre
          exact hothers s' hround pre r post rfl s'' hpre
        · rw [hround] at hpre
          cases hpre

theorem savesSucceed_of_ended {round : Round} {rest : List Round} {s : LoopState} {ended : End}
    (h : roundEnd expiry round = some ended) :
    SavesSucceed L running mat expiry (round :: rest) s := by
  refine savesSucceed_cons.mpr ⟨fun hsave => absurd (h.symm.trans hsave.1) (by simp), ?_⟩
  intro s' hround
  simp only [runRound, h] at hround
  cases hround

-- The grant a session runs under does not change while it runs.
structure Held.SameGrant (held held' : Held) : Prop where
  terms : held'.terms = held.terms
  envelope : held'.envelope = held.envelope
  permission : held'.session.permission = held.session.permission

theorem Held.SameGrant.refl (held : Held) : held.SameGrant held := ⟨rfl, rfl, rfl⟩

theorem Held.SameGrant.trans {held held' held'' : Held} (h : held.SameGrant held')
    (h' : held'.SameGrant held'') : held.SameGrant held'' :=
  ⟨h'.terms.trans h.terms, h'.envelope.trans h.envelope, h'.permission.trans h.permission⟩

section Round

variable {round : Round} {s : LoopState}

theorem runRound_ended {ended : End} (h : roundEnd expiry round = some ended) :
    runRound L running mat expiry round s = (s, some ended) := by
  simp only [runRound, h]

theorem runRound_idle (h : roundEnd expiry round = none) (hevent : round.event ≠ some .saved) :
    runRound L running mat expiry round s = ({ s with fs := round.disk s.fs }, none) := by
  simp only [runRound, h, if_neg hevent]

-- A grant for reading: the changes are dropped.
theorem onSaved_discards (hs : s.held.session.state = .opened)
    (hedit : s.held.session.permission ≠ some .edit) : onSaved L running mat round s =
      (⟨s.held, s.fs, s.sent, s.updates ++ [⟨.discarded, none, none⟩]⟩, none) := by
  have happly := @Session.apply_saved_discards s.held.session round.now hs hedit
  have hreseal : Effect.reseal ∉ [Effect.discardChanges, .notify .changesDiscarded] := by simp
  simp only [onSaved, happly, if_neg hreseal]

-- A save that becomes a version: the session is back in `Open`.
theorem onSaved_saves (hs : s.held.session.state = .opened)
    (hedit : s.held.session.permission = some .edit) {saved : Saved}
    (hok : Announced s.held.saving round.save saved
      (save L running.sealed mat s.held.saving running.device running.signer round.save s.fs)) :
    ∃ updates, onSaved L running mat round s =
      (⟨{ s.held with session :=
          { s.held.session with version := some saved.ver, dirty := false, state := .opened } },
        (save L running.sealed mat s.held.saving running.device running.signer round.save s.fs).fs,
        s.sent ++ [saved.notice], updates⟩, none) := by
  have happly := @Session.apply_saved s.held.session round.now hs hedit
  have hheld := hok.held_eq
  rw [Session.applied_resealed rfl] at hheld
  have hresult := hok.result
  have hsent := hok.sent
  simp only [Held.saving] at hheld hresult hsent ⊢
  exact ⟨_, by simp only [onSaved, happly, List.mem_singleton, if_true, hresult, hheld, hsent]; rfl⟩

-- A save that does not: the session has failed before the loop is left.
theorem onSaved_fails (hs : s.held.session.state = .opened)
    (hedit : s.held.session.permission = some .edit) {e : Problem}
    (hfail : Unsent s.held.saving e
      (save L running.sealed mat s.held.saving running.device running.signer round.save s.fs)) :
    ∃ updates, onSaved L running mat round s =
      (⟨{ s.held with session := { s.held.session with dirty := true, state := .failed } },
        (save L running.sealed mat s.held.saving running.device running.signer round.save s.fs).fs,
        s.sent, updates⟩, some (.failed e)) := by
  have happly := @Session.apply_saved s.held.session round.now hs hedit
  have hfailed : (s.held.saving.session.applied (.failed e) round.now) =
      { s.held.session with dirty := true, state := .failed } := by
    rw [Session.applied, Session.apply_failed rfl]
    rfl
  have hheld := hfail.held_eq
  have hresult := hfail.result
  have hsent := hfail.sent
  simp only [Held.saving] at hheld hresult hsent hfailed ⊢
  exact ⟨_, by simp only [onSaved, happly, List.mem_singleton, if_true, hresult, hheld, hsent,
    hfailed, List.append_nil]; rfl⟩

theorem runRound_saved (h : roundEnd expiry round = none) (hevent : round.event = some .saved) :
    runRound L running mat expiry round s =
      onSaved L running mat round { s with fs := round.disk s.fs } := by
  simp only [runRound, h, hevent, if_true]

theorem runRound_discards (hs : s.held.session.state = .opened) (h : roundEnd expiry round = none)
    (hevent : round.event = some .saved) (hedit : s.held.session.permission ≠ some .edit) :
    runRound L running mat expiry round s =
      (⟨s.held, round.disk s.fs, s.sent, s.updates ++ [⟨.discarded, none, none⟩]⟩, none) := by
  rw [runRound_saved h hevent]
  exact onSaved_discards hs hedit

theorem runRound_saves (hs : s.held.session.state = .opened) (hsave : MakesSave expiry round s)
    {saved : Saved} (hok : Announced s.held.saving round.save saved (saveIn L running mat round s)) :
    ∃ updates, runRound L running mat expiry round s =
      (⟨{ s.held with session :=
          { s.held.session with version := some saved.ver, dirty := false, state := .opened } },
        (saveIn L running mat round s).fs, s.sent ++ [saved.notice], updates⟩, none) := by
  obtain ⟨hend, hevent, hedit⟩ := hsave
  rw [runRound_saved hend hevent]
  exact @onSaved_saves L running mat round { s with fs := round.disk s.fs } hs hedit saved hok

theorem runRound_fails (hs : s.held.session.state = .opened) (hsave : MakesSave expiry round s)
    {e : Problem} (hfail : Unsent s.held.saving e (saveIn L running mat round s)) :
    ∃ updates, runRound L running mat expiry round s =
      (⟨{ s.held with session := { s.held.session with dirty := true, state := .failed } },
        (saveIn L running mat round s).fs, s.sent, updates⟩, some (.failed e)) := by
  obtain ⟨hend, hevent, hedit⟩ := hsave
  rw [runRound_saved hend hevent]
  exact @onSaved_fails L running mat round { s with fs := round.disk s.fs } hs hedit e hfail

-- What one round can do to an open session: end it from outside, go on, or end it
-- because a save failed.
theorem runRound_opened (hs : s.held.session.state = .opened) :
    (∃ ended, roundEnd expiry round = some ended ∧
      runRound L running mat expiry round s = (s, some ended)) ∨
    (roundEnd expiry round = none ∧
      (MakesSave expiry round s → ∃ saved, (saveIn L running mat round s).result = .ok saved) ∧
      ∃ s', runRound L running mat expiry round s = (s', none) ∧
        s'.held.session.state = .opened ∧ s.held.SameGrant s'.held) ∨
    (MakesSave expiry round s ∧ ∃ e s', (saveIn L running mat round s).result = .error e ∧
      runRound L running mat expiry round s = (s', some (.failed e)) ∧
      s'.held.session.state = .failed) := by
  cases hend : roundEnd expiry round with
  | some ended => exact .inl ⟨ended, rfl, runRound_ended hend⟩
  | none =>
      by_cases hsave : MakesSave expiry round s
      · rcases save_cases L s.held.saving running.device running.signer running.sealed mat
          round.save (round.disk s.fs) with ⟨e, hfail⟩ | ⟨saved, hok, _⟩
        · obtain ⟨updates, hround⟩ := runRound_fails hs hsave hfail
          exact .inr (.inr ⟨hsave, e, _, hfail.result, hround, rfl⟩)
        · obtain ⟨updates, hround⟩ := runRound_saves hs hsave hok
          exact .inr (.inl ⟨rfl, fun _ => ⟨saved, hok.result⟩, _, hround, rfl, ⟨rfl, rfl, rfl⟩⟩)
      · refine .inr (.inl ⟨rfl, fun h => absurd h hsave, ?_⟩)
        by_cases hevent : round.event = some .saved
        · have hedit : s.held.session.permission ≠ some .edit :=
            fun hedit => hsave ⟨hend, hevent, hedit⟩
          exact ⟨_, runRound_discards hs hend hevent hedit, hs, .refl _⟩
        · exact ⟨_, runRound_idle hend hevent, hs, .refl _⟩

end Round

-- A session that is still running is open, under the same grant.
theorem runRounds_running {rounds : List Round} {s s' : LoopState}
    (hs : s.held.session.state = .opened)
    (h : runRounds L running mat expiry rounds s = (s', none)) :
    s'.held.session.state = .opened ∧ s.held.SameGrant s'.held := by
  induction rounds generalizing s with
  | nil =>
      cases h
      exact ⟨hs, .refl _⟩
  | cons round rest ih =>
      rw [runRounds] at h
      rcases @runRound_opened L running mat expiry round s hs with ⟨ended, -, hround⟩ |
        ⟨-, -, s₁, hround, hs₁, hsame⟩ | ⟨-, e, s₁, -, hround, -⟩
      · rw [hround] at h
        cases h
      · rw [hround] at h
        obtain ⟨hopened, hrest⟩ := ih hs₁ h
        exact ⟨hopened, hsame.trans hrest⟩
      · rw [hround] at h
        cases h

-- As long as every save becomes a version, the session stays open until the loop ends.
theorem runRounds_opened {rounds : List Round} {s : LoopState} (hs : s.held.session.state = .opened)
    (hsaves : SavesSucceed L running mat expiry rounds s) :
    (runRounds L running mat expiry rounds s).1.held.session.state = .opened := by
  induction rounds generalizing s with
  | nil => exact hs
  | cons round rest ih =>
      obtain ⟨hfirst, hothers⟩ := savesSucceed_cons.mp hsaves
      rw [runRounds]
      rcases @runRound_opened L running mat expiry round s hs with ⟨ended, -, hround⟩ |
        ⟨-, -, s', hround, hs', -⟩ | ⟨hsave, e, s', herror, -⟩
      · rw [hround]
        exact hs
      · rw [hround]
        exact ih hs' (hothers s' hround)
      · obtain ⟨saved, hok⟩ := hfirst hsave
        rw [herror] at hok
        cases hok

-- The first save that does not ends the loop, with a session that has failed already.
theorem runRounds_failed {rounds : List Round} {s : LoopState} (hs : s.held.session.state = .opened)
    (hsaves : ¬SavesSucceed L running mat expiry rounds s) :
    ∃ s' e, runRounds L running mat expiry rounds s = (s', some (.failed e)) ∧
      s'.held.session.state = .failed := by
  induction rounds generalizing s with
  | nil =>
      refine absurd ?_ hsaves
      intro pre round post hsplit
      simp at hsplit
  | cons round rest ih =>
      rw [savesSucceed_cons, not_and] at hsaves
      rcases @runRound_opened L running mat expiry round s hs with ⟨ended, hend, hround⟩ |
        ⟨-, hok, s', hround, hs', -⟩ | ⟨-, e, s', -, hround, hfailed⟩
      · refine absurd ?_ (hsaves fun hsave => by cases hend.symm.trans hsave.1)
        intro s' hgo
        rw [hround] at hgo
        cases hgo
      · have hrest : ¬SavesSucceed L running mat expiry rest s' := by
          intro hrest
          refine hsaves hok fun s'' hgo => ?_
          rw [hround] at hgo
          cases hgo
          exact hrest
        obtain ⟨s'', e, hrounds, hfailed⟩ := ih hs' hrest
        exact ⟨s'', e, by rw [runRounds, hround]; exact hrounds, hfailed⟩
      · exact ⟨s', e, by rw [runRounds, hround], hfailed⟩

-- Every way a session can end is an event that an open session takes, and its last one.
theorem apply_eventOf {session : Zbacs.Session} (h : session.state = .opened) (ended : End)
    (now : UInt64) : ∃ session' effects, session.apply (eventOf ended) now = .ok (session', effects) ∧
      session'.state.isTerminal := by
  have hlive : session.state.isTerminal = false := by
    rw [h]
    rfl
  cases ended with
  | closed => exact ⟨_, _, Session.apply_viewerExited h, rfl⟩
  | revoked => exact ⟨_, _, Session.apply_revoked hlive, rfl⟩
  | expired => exact ⟨_, _, Session.apply_expired hlive, rfl⟩
  | failed reason => exact ⟨_, _, Session.apply_failed hlive reason, rfl⟩

-- A session whose viewer started, from the end of its loop on.
theorem runSession_eq {script : Script} {fs : Fs} {s : LoopState} {ended : End}
    (hopen : (openSession L running script fs).result = .ok mat) (hlaunch : script.launches = true)
    (hrounds : runRounds L running mat (expiryOf running.held) script.rounds
      (loopStart (openSession L running script fs)) = (s, some ended)) :
    runSession L running script fs =
      some ⟨ended,
        (close mat s.held (eventOf ended) script.closedAt script.wipe (script.closing s.fs)).2.1,
        (close mat s.held (eventOf ended) script.closedAt script.wipe (script.closing s.fs)).2.2,
        s.sent, s.updates ++ [finalUpdate ended]⟩ := by
  simp only [runSession, hopen, hlaunch, hrounds, Bool.not_true, Bool.false_eq_true, if_false]

end Zbacs.Agent
