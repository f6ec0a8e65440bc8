import Zbacs.Onchain.Offline

namespace Zbacs.Onchain.Offline

open Zbacs.Lib Zbacs.Contracts

-- What stays of a record however long it is kept: only its opens go up, and it may be revoked.
structure Later (r r' : GrantRecord) : Prop where
  owner : r'.owner = r.owner
  notBefore : r'.notBefore = r.notBefore
  expiry : r'.expiry = r.expiry
  maxOpens : r'.maxOpens = r.maxOpens
  opens : r.opens ≤ r'.opens
  revoked : r.revoked = true → r'.revoked = true

section Later

variable {r r' r'' : GrantRecord}

theorem Later.refl (r : GrantRecord) : Later r r := ⟨rfl, rfl, rfl, rfl, UInt16.le_refl _, id⟩

theorem Later.trans (h : Later r r') (h' : Later r' r'') : Later r r'' :=
  ⟨h'.owner.trans h.owner, h'.notBefore.trans h.notBefore, h'.expiry.trans h.expiry,
    h'.maxOpens.trans h.maxOpens, UInt16.le_trans h.opens h'.opens, h'.revoked ∘ h.revoked⟩

theorem Later.of_kept (h : Kept r r') : Later r r' := by
  refine ⟨?_, ?_, ?_, ?_, ?_, h.revoked⟩
  all_goals rcases h with rfl | ⟨rfl, hbound⟩ | ⟨-, rfl⟩
  case refine_5.inr.inl =>
    rw [UInt16.le_iff_toNat_le, toNat_opens hbound]
    exact Nat.le_succ _
  case refine_5.inl | refine_5.inr.inr => exact UInt16.le_refl _
  all_goals rfl

end Later

section Contract

variable {d : Contracts.Deployment} {before rest : List Tx} {p p' : AccessPolicy}
  {grantId : FixedBytes 32} {timestamp timestamp' : Nat}

theorem later_run (hhash : CollisionFree d (submitted (before ++ rest)))
    (hstored : ((Chain.run d before).policy.grants grantId).owner ≠ .zero) :
    Later ((Chain.run d before).policy.grants grantId)
      ((Chain.run d (before ++ rest)).policy.grants grantId) := by
  induction rest using List.reverseRecOn with
  | nil =>
      rw [List.append_nil]
      exact .refl _
  | append_singleton rest tx ih =>
      rw [← List.append_assoc] at hhash ⊢
      have hlater := ih hhash.left
      exact hlater.trans (.of_kept (keeps_run hhash (hlater.owner.symm ▸ hstored)))

theorem isValid_iff : p.isValid timestamp grantId = true ↔
    (p.grants grantId).owner ≠ .zero ∧ (p.grants grantId).revoked = false ∧
      (p.grants grantId).notBefore.toNat ≤ timestamp ∧ timestamp < (p.grants grantId).expiry.toNat ∧
      ((p.grants grantId).maxOpens = 0 ∨ (p.grants grantId).opens < (p.grants grantId).maxOpens) := by
  refine ⟨AccessPolicy.isValid_eq_true, fun ⟨howner, hrevoked, hopen, hexpiry, hopens⟩ => ?_⟩
  unfold AccessPolicy.isValid
  dsimp only
  rw [if_neg (by simp [howner, hrevoked]), if_neg (by omega), if_neg]
  rintro ⟨hmax, hspent⟩
  exact UInt16.not_lt.mpr hspent (hopens.resolve_left hmax)

-- A grant that is on record with its window open, and is good later, is good now.
theorem isValid_of_later (hlater : Later (p.grants grantId) (p'.grants grantId))
    (htime : timestamp ≤ timestamp') (hopen : (p.grants grantId).notBefore.toNat ≤ timestamp)
    (h : p'.isValid timestamp' grantId = true) : p.isValid timestamp grantId = true := by
  obtain ⟨howner, hrevoked, -, hexpiry, hopens⟩ := isValid_iff.mp h
  rw [hlater.owner] at howner
  rw [hlater.expiry] at hexpiry
  rw [hlater.maxOpens] at hopens
  refine isValid_iff.mpr ⟨howner, ?_, hopen, htime.trans_lt hexpiry, ?_⟩
  · by_contra hdead
    rw [hlater.revoked (Bool.not_eq_false _ ▸ hdead)] at hrevoked
    cases hrevoked
  · exact hopens.imp_right (UInt16.lt_of_le_of_lt hlater.opens)

end Contract

section Runs

variable {d : Contracts.Deployment} {turns turns' : List Turn} {s : State} {pre mid post : List Moment}
  {x y : Moment}

theorem step_chain (turn : Turn) :
    (step d s turn).2.chain = final (Chain.transact d) (minedOf [turn]) s.chain := by
  cases turn with
  | mined tx => rfl
  | waited timestamp => rfl
  | asked q =>
      simp only [step]
      split <;> rfl

theorem minedOf_append : minedOf (turns ++ turns') = minedOf turns ++ minedOf turns' :=
  List.filterMap_append

-- The chain is the work of the transactions alone.
theorem final_chain : (final (step d) turns .start).chain = Chain.run d (minedOf turns) := by
  induction turns using List.reverseRecOn with
  | nil => rfl
  | append_singleton turns turn ih =>
      rw [final_append, final, final, step_chain, ih, minedOf_append, Chain.run, Chain.run, final_append]

-- Two moments of a run: the later one has the earlier one's chain and what was mined since.
theorem chains_of_moments (h : trace (step d) turns .start = pre ++ x :: mid ++ y :: post) :
    ∃ before since, x.before.chain = Chain.run d before ∧ y.before.chain = Chain.run d (before ++ since) ∧
      ∃ after, minedOf turns = before ++ since ++ after := by
  rw [List.append_assoc, List.cons_append] at h
  obtain ⟨first, turn, rest, rfl, -, hx, hrest⟩ := trace_eq_append_cons h
  obtain ⟨second, turn', last, rfl, -, hy, -⟩ := trace_eq_append_cons hrest.symm
  refine ⟨minedOf first, minedOf (turn :: second), ?_, ?_, minedOf (turn' :: last), ?_⟩
  · rw [hx]
    exact final_chain
  · rw [hy, ← minedOf_append, ← final_chain, final_append, hx]
    rfl
  · rw [← List.cons_append, ← List.append_assoc, minedOf_append, minedOf_append]

theorem time_le (hordered : turns.Pairwise fun t t' => t.time ≤ t'.time)
    (h : trace (step d) turns s = pre ++ x :: mid ++ y :: post) : x.input.time ≤ y.input.time := by
  have hinputs := congrArg (List.map Taken.input) h
  rw [map_input_trace] at hinputs
  rw [hinputs, List.append_assoc, List.map_append, List.pairwise_append, List.cons_append, List.map_cons,
    List.pairwise_cons] at hordered
  exact hordered.2.1.1 _ (List.mem_map_of_mem (List.mem_append_right _ List.mem_cons_self))

-- Validity is one-way from the moment a grant is on record with its window open.
theorem oneWay_iff (hordered : turns.Pairwise fun t t' => t.time ≤ t'.time)
    (hhash : CollisionFree d (submitted (minedOf turns))) :
    OneWay (trace (step d) turns .start) ↔ AskedInTime (trace (step d) turns .start) := by
  constructor
  · intro honeway pre x mid y post q hlog hasked hreached hvalid
    have hx : Moment.isValid q.grantId x = true := by
      by_contra hdead
      rw [honeway pre x mid y post q hlog hasked hreached (Bool.not_eq_true _ ▸ hdead)] at hvalid
      cases hvalid
    unfold Moment.isValid at hx
    rw [hasked] at hx
    obtain ⟨howner, -, hopen, -⟩ := AccessPolicy.isValid_eq_true hx
    exact ⟨howner, hopen⟩
  · intro hintime pre x mid y post q hlog hasked hreached hdead
    by_contra hvalid
    rw [Bool.not_eq_false] at hvalid
    obtain ⟨hstored, hopen⟩ := hintime pre x mid y post q hlog hasked hreached hvalid
    obtain ⟨before, since, hbefore, hsince, after, hmined⟩ := chains_of_moments hlog
    rw [hmined] at hhash
    have hlater := @later_run d before since q.grantId hhash.left (hbefore ▸ hstored)
    rw [← hbefore, ← hsince] at hlater
    have htime := time_le hordered hlog
    rw [Moment.isValid, isValid_of_later hlater htime (by rw [hasked]; exact hopen) hvalid] at hdead
    cases hdead

end Runs

end Zbacs.Onchain.Offline
