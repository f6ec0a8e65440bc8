import Zbacs.Onchain.Offline.OneWay

namespace Zbacs.Onchain.Offline

open Zbacs.Lib Zbacs.Contracts

section Step

variable {d : Contracts.Deployment} {s : State} {q : Query} {turn : Turn}

-- Either query puts the node's answer away, and only that.
theorem asked_cache : (step d s (.asked q)).2.cache =
    if q.reached then
      s.cache.putGrant q.grantId (s.chain.policy.isValid q.timestamp q.grantId) q.takenAt
    else s.cache := by
  cases hreached : q.reached with
  | false =>
      simp only [step, ChainClient.isGrantValidOffline, ChainClient.isGrantValid, hreached,
        Bool.false_eq_true, if_false, if_true]
      split
      · rfl
      · split <;> rfl
  | true =>
      simp only [step, ChainClient.isGrantValidOffline, ChainClient.isGrantValid, hreached, if_true]
      split
      · rfl
      · split <;> rfl

-- What the entry says is the node's answer, or it is the no of an earlier entry.
theorem asked_entry (hreached : q.reached = true) :
    ∃ e, (step d s (.asked q)).2.cache.grants q.grantId = some e ∧
      (e = ⟨s.chain.policy.isValid q.timestamp q.grantId, q.takenAt⟩ ∨
        (s.chain.policy.isValid q.timestamp q.grantId = true ∧ e.value = false ∧
          s.cache.grants q.grantId = some e)) ∧
      ∀ tolerance, q.tolerance = some tolerance → (step d s (.asked q)).1 = .cached (.ok
        ⟨e.value, if q.lookedAt - e.takenAt ≤ tolerance then .fresh else .stale,
          q.lookedAt - e.takenAt⟩) := by
  have hanswer : ∀ e, (s.cache.putGrant q.grantId (s.chain.policy.isValid q.timestamp q.grantId)
      q.takenAt).grants q.grantId = some e → ∀ tolerance, q.tolerance = some tolerance →
      (step d s (.asked q)).1 = .cached (.ok
        ⟨e.value, if q.lookedAt - e.takenAt ≤ tolerance then .fresh else .stale,
          q.lookedAt - e.takenAt⟩) := by
    intro e he tolerance htolerance
    simp [step, htolerance, ChainClient.isGrantValidOffline, ChainClient.isGrantValid, hreached,
      Cache.grant, he]
  rw [asked_cache, if_pos hreached]
  rcases @Cache.putGrant_grants s.cache q.grantId (s.chain.policy.isValid q.timestamp q.grantId)
    q.takenAt with hnew | ⟨hvalid, takenAt, hold, hkept⟩
  · exact ⟨_, hnew, .inl rfl, hanswer _ hnew⟩
  · exact ⟨_, hkept, .inr ⟨hvalid, rfl, hold⟩, hanswer _ hkept⟩

-- An entry that a turn changes is the answer the node gave in it.
theorem step_entry {grantId : FixedBytes 32} {e : Entry Bool}
    (h : (step d s turn).2.cache.grants grantId = some e) :
    s.cache.grants grantId = some e ∨
      ∃ q, turn = .asked q ∧ q.grantId = grantId ∧ q.reached = true ∧
        e.value = s.chain.policy.isValid q.timestamp grantId := by
  cases turn with
  | mined tx => exact .inl h
  | waited timestamp => exact .inl h
  | asked q =>
      cases hreached : q.reached with
      | false =>
          rw [asked_cache, if_neg (by rw [hreached]; exact Bool.false_ne_true)] at h
          exact .inl h
      | true =>
          by_cases hid : grantId = q.grantId
          · subst hid
            obtain ⟨e', he', hvalue, -⟩ := @asked_entry d s q hreached
            rw [h] at he'
            cases he'
            rcases hvalue with rfl | ⟨-, -, hold⟩
            · exact .inr ⟨q, rfl, rfl, hreached, rfl⟩
            · exact .inl hold
          · rw [asked_cache, if_pos hreached, Cache.putGrant_of_ne hid] at h
            exact .inl h

end Step

-- A no in the cache is an answer the node gave.
def Remembered (log : List Moment) (s : State) : Prop :=
  ∀ grantId e, s.cache.grants grantId = some e → e.value = false →
    ∃ x ∈ log, ∃ q, x.input = .asked q ∧ q.grantId = grantId ∧ q.reached = true ∧
      Moment.isValid grantId x = false

section Runs

variable {d : Contracts.Deployment} {turns : List Turn}

theorem remembered_run : Remembered (trace (step d) turns .start) (final (step d) turns .start) := by
  refine trace_induct (fun grantId e he => by cases he) (fun log s turn ih grantId e he hno => ?_) turns
  rcases step_entry he with hold | ⟨q, rfl, rfl, hreached, hvalue⟩
  · obtain ⟨x, hx, hanswered⟩ := ih grantId e hold hno
    exact ⟨x, List.mem_append_left _ hx, hanswered⟩
  · exact ⟨_, List.mem_append_right _ List.mem_cons_self, q, rfl, rfl, hreached, hvalue.symm.trans hno⟩

-- As long as validity is one-way the cache never keeps a no against a yes.
theorem faithful_of_oneWay (honeway : OneWay (trace (step d) turns .start))
    (hprompt : LookedUpAtOnce (trace (step d) turns .start)) :
    Faithful (trace (step d) turns .start) := by
  intro x hx q tolerance hasked htolerance hpositive hreached
  have hage := hprompt x hx q tolerance hasked htolerance hpositive hreached
  obtain ⟨pre, post, hlog⟩ := List.append_of_mem hx
  obtain ⟨before, turn, after, hturns, hpre, rfl, -⟩ := trace_eq_append_cons hlog
  have hturn : turn = .asked q := hasked
  subst hturn
  obtain ⟨e, -, hentry, hanswer⟩ := @asked_entry d (final (step d) before .start) q hreached
  have houtput := hanswer tolerance htolerance
  rcases hentry with rfl | ⟨hyes, hno, hold⟩
  · rw [if_pos hage] at houtput
    exact ⟨_, houtput⟩
  · obtain ⟨y, hy, q', hasked', hid, hreached', hdead⟩ := remembered_run _ e hold hno
    rw [← hpre] at hy
    obtain ⟨first, mid, rfl⟩ := List.append_of_mem hy
    have hlater := honeway first y mid _ post q' hlog hasked' hreached' (hid ▸ hdead)
    rw [hid] at hlater
    have hyes' : Moment.isValid q.grantId (taken (step d) (final (step d) before .start) (.asked q)) =
      true := hyes
    rw [hyes'] at hlater
    cases hlater

theorem lookedUpAtOnce_of_faithful (h : Faithful (trace (step d) turns .start)) :
    LookedUpAtOnce (trace (step d) turns .start) := by
  intro x hx q tolerance hasked htolerance hpositive hreached
  obtain ⟨age, houtput⟩ := h x hx q tolerance hasked htolerance hpositive hreached
  obtain ⟨before, turn, after, -, rfl⟩ := exists_of_mem_trace hx
  have hturn : turn = .asked q := hasked
  subst hturn
  obtain ⟨e, -, hentry, hanswer⟩ := @asked_entry d (final (step d) before .start) q hreached
  have hgiven := (hanswer tolerance htolerance).symm.trans houtput
  injection hgiven with hgiven
  injection hgiven with hgiven
  injection hgiven with hvalue hfresh
  rcases hentry with rfl | ⟨hyes, hno, -⟩
  · by_contra hlate
    rw [if_neg hlate] at hfresh
    cases hfresh
  · have hyes' : Moment.isValid q.grantId (taken (step d) (final (step d) before .start) (.asked q)) =
      true := hyes
    rw [hno, hyes'] at hvalue
    cases hvalue

end Runs

-- Whatever is mined and asked in whatever order, at times that do not go back: a grant that was
-- seen invalid stays invalid, and the cache hands out what the node says as fresh, if and only if
-- every grant that is ever good was on record with its window open whenever it was asked for,
-- and the cache is looked up within the tolerance.
theorem offline_iff (d : Contracts.Deployment) (turns : List Turn)
    (hordered : turns.Pairwise fun t t' => t.time ≤ t'.time)
    (hhash : CollisionFree d (submitted (minedOf turns))) :
    (OneWay (trace (step d) turns .start) ∧ Faithful (trace (step d) turns .start)) ↔
      AskedInTime (trace (step d) turns .start) ∧ LookedUpAtOnce (trace (step d) turns .start) := by
  rw [oneWay_iff hordered hhash]
  refine ⟨fun ⟨hintime, hfaithful⟩ => ⟨hintime, lookedUpAtOnce_of_faithful hfaithful⟩,
    fun ⟨hintime, hprompt⟩ => ⟨hintime, faithful_of_oneWay ?_ hprompt⟩⟩
  exact (oneWay_iff hordered hhash).mpr hintime

namespace Reference

open Contracts.Reference

def grantId : FixedBytes 32 := (terms 0 5).hashStruct deployment

def query (timestamp : Nat) : Query := ⟨grantId, some 60, true, timestamp, timestamp, timestamp + 1⟩

def asking (timestamp : Nat) : Turn := .asked (query timestamp)

-- Asked for after it is granted, and again after it is revoked.
def afterwards : List Turn :=
  granting.map .mined ++ [asking 1250] ++ revoking.map .mined ++ [asking 1350]

-- Asked for before it is granted, and again after.
def tooEarly : List Turn := asking 900 :: granting.map .mined ++ [asking 1250]

def inTime (x : Moment) : Bool :=
  match x.input with
  | .asked q => (x.before.chain.policy.grants q.grantId).owner ≠ .zero ∧
      (x.before.chain.policy.grants q.grantId).notBefore.toNat ≤ q.timestamp ∧
      q.tolerance = some 60 ∧ q.lookedAt - q.takenAt ≤ 60
  | _ => true

def handedOut (x : Moment) : Option (Bool × Freshness) :=
  match x.output with
  | .cached (.ok c) => some (c.value, c.freshness)
  | _ => none

theorem afterwards_faithful : OneWay (trace (step deployment) afterwards .start) ∧
    Faithful (trace (step deployment) afterwards .start) ∧
    (trace (step deployment) afterwards .start).filterMap handedOut = [(true, .fresh), (false, .fresh)] := by
  have hhash : CollisionFree deployment (submitted (minedOf afterwards)) := by
    unfold CollisionFree
    decide +kernel
  have hordered : afterwards.Pairwise fun t t' => t.time ≤ t'.time := by decide +kernel
  have hall : ∀ x ∈ trace (step deployment) afterwards .start, inTime x = true := by decide +kernel
  have hasked : ∀ x ∈ trace (step deployment) afterwards .start, ∀ q, x.input = .asked q →
      (x.before.chain.policy.grants q.grantId).owner ≠ .zero ∧
        (x.before.chain.policy.grants q.grantId).notBefore.toNat ≤ q.timestamp ∧
        q.tolerance = some 60 ∧ q.lookedAt - q.takenAt ≤ 60 := by
    intro x hx q hq
    have htime := hall x hx
    rw [inTime, hq] at htime
    exact of_decide_eq_true htime
  obtain ⟨honeway, hfaithful⟩ := (offline_iff deployment afterwards hordered hhash).mpr
    ⟨fun pre x mid y post q hlog hq _ _ => by
        obtain ⟨howner, hopen, -⟩ := hasked x (by rw [hlog]; simp) q hq
        exact ⟨howner, hopen⟩,
      fun x hx q tolerance hq htolerance _ _ => by
        obtain ⟨-, -, hsixty, hprompt⟩ := hasked x hx q hq
        rw [hsixty] at htolerance
        cases htolerance
        exact hprompt⟩
  exact ⟨honeway, hfaithful, by decide +kernel⟩

-- The no that came before the grant is what the cache still says when the node says yes.
theorem not_offline : CollisionFree deployment (submitted (minedOf tooEarly)) ∧
    (tooEarly.Pairwise fun t t' => t.time ≤ t'.time) ∧
    ¬ OneWay (trace (step deployment) tooEarly .start) ∧
    ¬ Faithful (trace (step deployment) tooEarly .start) := by
  have hhash : CollisionFree deployment (submitted (minedOf tooEarly)) := by
    unfold CollisionFree
    decide +kernel
  have hlog : trace (step deployment) tooEarly .start =
      [] ++ taken (step deployment) .start (asking 900) ::
        trace (step deployment) (granting.map .mined) (step deployment .start (asking 900)).2 ++
        taken (step deployment) (final (step deployment) (asking 900 :: granting.map .mined) .start)
          (asking 1250) :: [] := rfl
  refine ⟨hhash, by decide +kernel, fun honeway => ?_, fun hfaithful => ?_⟩
  · have hlater := honeway _ _ _ _ _ _ hlog rfl rfl (by decide +kernel)
    revert hlater
    decide +kernel
  · have hlast : taken (step deployment)
        (final (step deployment) (asking 900 :: granting.map .mined) .start) (asking 1250) ∈
        trace (step deployment) tooEarly .start := by
      rw [hlog]
      exact List.mem_append_right _ List.mem_cons_self
    obtain ⟨age, houtput⟩ := hfaithful _ hlast (query 1250) 60 rfl rfl (by decide) rfl
    have hvalid : Moment.isValid (query 1250).grantId (taken (step deployment)
        (final (step deployment) (asking 900 :: granting.map .mined) .start) (asking 1250)) = true := by
      decide +kernel
    have hgiven : handedOut (taken (step deployment)
        (final (step deployment) (asking 900 :: granting.map .mined) .start) (asking 1250)) =
        some (true, .fresh) := by
      rw [handedOut, houtput, hvalid]
    revert hgiven
    decide +kernel

end Reference

end Zbacs.Onchain.Offline
