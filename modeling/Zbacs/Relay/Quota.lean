import Mathlib.Data.List.TakeWhile
import Zbacs.Lib.Window
import Zbacs.Relay.State

namespace Zbacs.Relay

open Zbacs.Lib

-- A device that calls, and when.
structure QuotaCall where
  kid : FixedBytes 16
  now : Instant
deriving DecidableEq

def quotaStep (r : Zbacs.Relay) (call : QuotaCall) : Except Refusal Unit × Zbacs.Relay :=
  r.takeQuota call.kid call.now

abbrev QuotaLog := List (Taken Zbacs.Relay QuotaCall (Except Refusal Unit))

-- When a device was let in.
def acceptedOf (kid : FixedBytes 16) (log : QuotaLog) : List Instant :=
  log.filterMap fun x => if x.input.kid = kid ∧ x.output = .ok () then some x.input.now else none

-- How many of these are no earlier than the one time and no later than the other.
def between (start stop : Nat) (times : List Instant) : Nat :=
  times.countP fun t => start ≤ t.toNanos ∧ t.toNanos ≤ stop

def outputsOf (kid : FixedBytes 16) (log : QuotaLog) : List (Except Refusal Unit) :=
  (log.filter fun x => x.input.kid = kid).map Taken.output

-- What the relay keeps of a device: all that was let in, but for what is more than an hour old.
structure Counted (accepted kept : List Instant) (last : Nat) : Prop where
  kept : ∃ old, accepted = old ++ kept ∧ ∀ t ∈ old, t.toNanos + fromSecs 3600 < last
  sorted : accepted.Pairwise fun t t' => t.toNanos ≤ t'.toNanos
  past : ∀ t ∈ accepted, t.toNanos ≤ last

section Counted

variable {accepted kept : List Instant} {last : Nat} {now : Instant}

theorem counted_nil (last : Nat) : Counted [] [] last :=
  ⟨⟨[], rfl, fun _ h => absurd h List.not_mem_nil⟩, List.Pairwise.nil, fun _ h => absurd h List.not_mem_nil⟩

theorem Counted.later (h : Counted accepted kept last) {later : Nat} (hlater : last ≤ later) :
    Counted accepted kept later := by
  obtain ⟨old, hsplit, hold⟩ := h.kept
  exact ⟨⟨old, hsplit, fun t ht => (hold t ht).trans_le hlater⟩, h.sorted,
    fun t ht => (h.past t ht).trans hlater⟩

-- The front of the deque is dropped.
theorem Counted.dropWhile (h : Counted accepted kept now.toNanos) :
    Counted accepted (kept.dropWhile fun t => now.durationSince t > fromSecs 3600) now.toNanos := by
  obtain ⟨old, hsplit, hold⟩ := h.kept
  refine ⟨⟨old ++ kept.takeWhile fun t => now.durationSince t > fromSecs 3600, ?_, fun t ht => ?_⟩,
    h.sorted, h.past⟩
  · rw [List.append_assoc, List.takeWhile_append_dropWhile]
    exact hsplit
  · rcases List.mem_append.mp ht with ht | ht
    · exact hold t ht
    · have hover := List.mem_takeWhile_imp ht
      rw [decide_eq_true_eq] at hover
      unfold Instant.durationSince at hover
      omega

theorem Counted.concat (h : Counted accepted kept now.toNanos) :
    Counted (accepted ++ [now]) (kept ++ [now]) now.toNanos := by
  obtain ⟨old, hsplit, hold⟩ := h.kept
  refine ⟨⟨old, by rw [hsplit, List.append_assoc], hold⟩, ?_, fun t ht => ?_⟩
  · refine List.pairwise_append.mpr ⟨h.sorted, List.pairwise_singleton .., fun t ht t' ht' => ?_⟩
    rw [List.mem_singleton.mp ht']
    exact h.past t ht
  · rcases List.mem_append.mp ht with ht | ht
    · exact h.past t ht
    · rw [List.mem_singleton.mp ht]

-- What is left when the front was dropped is what was let in within the hour.
theorem Counted.dropWhile_eq (h : Counted accepted kept now.toNanos) :
    (kept.dropWhile fun t => now.durationSince t > fromSecs 3600) =
      kept.filter fun t => now.toNanos ≤ t.toNanos + fromSecs 3600 := by
  obtain ⟨old, hsplit, -⟩ := h.kept
  have hsorted : kept.Pairwise fun t t' => t.toNanos ≤ t'.toNanos :=
    h.sorted.sublist (hsplit ▸ List.sublist_append_right old kept)
  rw [dropWhile_eq_filter]
  · refine List.filter_congr fun t _ => ?_
    rw [← decide_not, decide_eq_decide]
    unfold Instant.durationSince
    omega
  · refine hsorted.imp fun {t t'} hle hover => ?_
    rw [decide_eq_true_eq] at hover ⊢
    unfold Instant.durationSince at hover ⊢
    omega

-- Any shorter stretch is counted in what is kept as in all that was let in.
theorem Counted.countP_kept (h : Counted accepted kept now.toNanos) {width : Nat}
    (hwidth : width ≤ fromSecs 3600) :
    kept.countP (fun t => now.toNanos ≤ t.toNanos + width) =
      recently Instant.toNanos width now.toNanos accepted := by
  obtain ⟨old, rfl, hold⟩ := h.kept
  have hnone : recently Instant.toNanos width now.toNanos old = 0 :=
    recently_eq_zero fun t ht => (Nat.add_le_add_left hwidth _).trans_lt (hold t ht)
  rw [recently_append, hnone, Nat.zero_add, recently]

-- All of it is in the past, so a stretch that ends now has no other end.
theorem Counted.between_eq (h : Counted accepted kept now.toNanos) (width : Nat) :
    between (now.toNanos - width) now.toNanos accepted =
      recently Instant.toNanos width now.toNanos accepted := by
  refine List.countP_congr fun t ht => ?_
  have hpast := h.past t ht
  simp only [decide_eq_true_eq]
  omega

end Counted

section Step

variable {r : Zbacs.Relay} {call : QuotaCall} {accepted : List Instant} {kid : FixedBytes 16}

-- Refused when the last minute or the last hour is full.
def Full (accepted : List Instant) (now : Nat) : Prop :=
  ratePerMinute ≤ between (now - fromSecs 60) now accepted ∨
    ratePerHour ≤ between (now - fromSecs 3600) now accepted

instance : Decidable (Full accepted now) := inferInstanceAs (Decidable (_ ∨ _))

theorem quotaStep_eq (h : Counted accepted (r.calls call.kid) call.now.toNanos) :
    quotaStep r call =
      if Full accepted call.now.toNanos then
        (.error .rateLimited, { r with
          calls := Function.update r.calls call.kid
            ((r.calls call.kid).dropWhile fun t => call.now.durationSince t > fromSecs 3600) })
      else (.ok (), { r with
        calls := Function.update r.calls call.kid
          (((r.calls call.kid).dropWhile fun t => call.now.durationSince t > fromSecs 3600) ++
            [call.now]) }) := by
  have hminute : fromSecs 60 ≤ fromSecs 3600 := Nat.mul_le_mul_right _ (by decide)
  have hlength : ((r.calls call.kid).dropWhile fun t =>
      call.now.durationSince t > fromSecs 3600).length =
        recently Instant.toNanos (fromSecs 3600) call.now.toNanos accepted := by
    rw [h.dropWhile_eq, ← List.countP_eq_length_filter, h.countP_kept le_rfl]
  have hlast : (((r.calls call.kid).dropWhile fun t => call.now.durationSince t > fromSecs 3600).filter
      fun t => call.now.durationSince t ≤ fromSecs 60).length =
        recently Instant.toNanos (fromSecs 60) call.now.toNanos accepted := by
    rw [← h.dropWhile.countP_kept hminute, List.countP_eq_length_filter]
    refine congrArg List.length (List.filter_congr fun t _ => decide_eq_decide.mpr ?_)
    exact Nat.sub_le_iff_le_add'
  unfold quotaStep Zbacs.Relay.takeQuota Full
  simp only [hlength, hlast, h.between_eq, ge_iff_le]

theorem quotaStep_of_full (h : Counted accepted (r.calls call.kid) call.now.toNanos)
    (hfull : Full accepted call.now.toNanos) : (quotaStep r call).1 = .error .rateLimited ∧
      Counted accepted ((quotaStep r call).2.calls call.kid) call.now.toNanos := by
  rw [quotaStep_eq h, if_pos hfull]
  refine ⟨rfl, ?_⟩
  dsimp only
  rw [Function.update_self]
  exact h.dropWhile

theorem quotaStep_of_not_full (h : Counted accepted (r.calls call.kid) call.now.toNanos)
    (hfull : ¬Full accepted call.now.toNanos) : (quotaStep r call).1 = .ok () ∧
      Counted (accepted ++ [call.now]) ((quotaStep r call).2.calls call.kid) call.now.toNanos := by
  rw [quotaStep_eq h, if_neg hfull]
  refine ⟨rfl, ?_⟩
  dsimp only
  rw [Function.update_self]
  exact h.dropWhile.concat

-- The calls of one device leave what is kept of another alone.
theorem calls_quotaStep_of_ne (h : kid ≠ call.kid) : (quotaStep r call).2.calls kid = r.calls kid := by
  unfold quotaStep Zbacs.Relay.takeQuota
  dsimp only
  split_ifs <;> exact Function.update_of_ne h ..

end Step

section Log

variable {kid : FixedBytes 16} {log : QuotaLog} {x : Taken Zbacs.Relay QuotaCall (Except Refusal Unit)}

theorem acceptedOf_concat_of_ne (h : x.input.kid ≠ kid) : acceptedOf kid (log ++ [x]) = acceptedOf kid log := by
  simp [acceptedOf, h]

theorem acceptedOf_concat_of_error {e : Refusal} (h : x.output = .error e) :
    acceptedOf kid (log ++ [x]) = acceptedOf kid log := by
  simp [acceptedOf, h]

theorem acceptedOf_concat_of_ok (hkid : x.input.kid = kid) (h : x.output = .ok ()) :
    acceptedOf kid (log ++ [x]) = acceptedOf kid log ++ [x.input.now] := by
  simp [acceptedOf, hkid, h]

end Log

-- After some calls: what is kept of every device, and that neither limit was ever passed.
structure WithinQuota (log : QuotaLog) (r : Zbacs.Relay) : Prop where
  counted : ∀ last, (∀ x ∈ log, x.input.now.toNanos ≤ last) → ∀ kid,
    Counted (acceptedOf kid log) (r.calls kid) last
  minute : ∀ kid, Paced Instant.toNanos (fromSecs 60) ratePerMinute (acceptedOf kid log)
  hour : ∀ kid, Paced Instant.toNanos (fromSecs 3600) ratePerHour (acceptedOf kid log)

-- The clock does not go back.
def Later (log : QuotaLog) (x : Taken Zbacs.Relay QuotaCall (Except Refusal Unit)) : Prop :=
  ∀ y ∈ log, y.input.now.toNanos ≤ x.input.now.toNanos

-- A call is answered by what was let in of the same device.
def Exact (log : QuotaLog) (x : Taken Zbacs.Relay QuotaCall (Except Refusal Unit)) : Prop :=
  x.output = if Full (acceptedOf x.input.kid log) x.input.now.toNanos then .error .rateLimited else .ok ()

section Run

variable {log : QuotaLog} {r : Zbacs.Relay} {call : QuotaCall}

theorem withinQuota_new : WithinQuota [] .new :=
  ⟨fun last _ _ => counted_nil last, fun _ => paced_nil, fun _ => paced_nil⟩

theorem le_of_concat {x : Taken Zbacs.Relay QuotaCall (Except Refusal Unit)} {last : Nat}
    (hlast : ∀ y ∈ log ++ [x], y.input.now.toNanos ≤ last) : x.input.now.toNanos ≤ last :=
  hlast x (List.mem_append_right _ (List.mem_singleton_self x))

theorem WithinQuota.refused (h : WithinQuota log r) (hlater : Later log (taken quotaStep r call))
    (hfull : Full (acceptedOf call.kid log) call.now.toNanos) :
    WithinQuota (log ++ [taken quotaStep r call]) (quotaStep r call).2 := by
  obtain ⟨hout, hcounted⟩ := quotaStep_of_full (h.counted _ hlater call.kid) hfull
  have hsame : ∀ kid, acceptedOf kid (log ++ [taken quotaStep r call]) = acceptedOf kid log :=
    fun kid => acceptedOf_concat_of_error hout
  refine ⟨fun last hlast kid => ?_, fun kid => ?_, fun kid => ?_⟩
  · rw [hsame]
    by_cases hkid : kid = call.kid
    · rw [hkid]
      exact hcounted.later (@le_of_concat log (taken quotaStep r call) last hlast)
    · rw [calls_quotaStep_of_ne hkid]
      exact h.counted last (fun x hx => hlast x (List.mem_append_left _ hx)) kid
  · rw [hsame]
    exact h.minute kid
  · rw [hsame]
    exact h.hour kid

theorem WithinQuota.accepted (h : WithinQuota log r) (hlater : Later log (taken quotaStep r call))
    (hfull : ¬Full (acceptedOf call.kid log) call.now.toNanos) :
    WithinQuota (log ++ [taken quotaStep r call]) (quotaStep r call).2 := by
  have hbefore : Counted (acceptedOf call.kid log) (r.calls call.kid) call.now.toNanos :=
    h.counted _ hlater call.kid
  obtain ⟨hout, hcounted⟩ := quotaStep_of_not_full hbefore hfull
  obtain ⟨hminute, hhour⟩ := not_or.mp hfull
  rw [hbefore.between_eq, not_le] at hminute hhour
  have hmore : acceptedOf call.kid (log ++ [taken quotaStep r call]) =
      acceptedOf call.kid log ++ [call.now] := acceptedOf_concat_of_ok rfl hout
  have hsame : ∀ kid ≠ call.kid, acceptedOf kid (log ++ [taken quotaStep r call]) = acceptedOf kid log :=
    fun kid hkid => acceptedOf_concat_of_ne hkid.symm
  refine ⟨fun last hlast kid => ?_, fun kid => ?_, fun kid => ?_⟩
  · by_cases hkid : kid = call.kid
    · rw [hkid, hmore]
      exact hcounted.later (@le_of_concat log (taken quotaStep r call) last hlast)
    · rw [hsame kid hkid, calls_quotaStep_of_ne hkid]
      exact h.counted last (fun x hx => hlast x (List.mem_append_left _ hx)) kid
  · by_cases hkid : kid = call.kid
    · rw [hkid, hmore]
      exact paced_concat.mpr ⟨h.minute _, hminute⟩
    · rw [hsame kid hkid]
      exact h.minute kid
  · by_cases hkid : kid = call.kid
    · rw [hkid, hmore]
      exact paced_concat.mpr ⟨h.hour _, hhour⟩
    · rw [hsame kid hkid]
      exact h.hour kid

theorem WithinQuota.step (h : WithinQuota log r) (hlater : Later log (taken quotaStep r call)) :
    WithinQuota (log ++ [taken quotaStep r call]) (quotaStep r call).2 ∧
      Exact log (taken quotaStep r call) := by
  have hbefore : Counted (acceptedOf call.kid log) (r.calls call.kid) call.now.toNanos :=
    h.counted _ hlater call.kid
  by_cases hfull : Full (acceptedOf call.kid log) call.now.toNanos
  · exact ⟨h.refused hlater hfull, (quotaStep_of_full hbefore hfull).1.trans (if_pos hfull).symm⟩
  · exact ⟨h.accepted hlater hfull, (quotaStep_of_not_full hbefore hfull).1.trans (if_neg hfull).symm⟩

theorem along_later {calls : List QuotaCall} {r : Zbacs.Relay}
    (h : calls.Pairwise fun c c' => c.now.toNanos ≤ c'.now.toNanos) :
    Along Later (trace quotaStep calls r) := by
  intro pre x post hsplit y hy
  obtain ⟨before, call, after, rfl, rfl, rfl, -⟩ := trace_eq_append_cons hsplit
  obtain ⟨-, -, hcross⟩ := List.pairwise_append.mp h
  have hmem : y.input ∈ before := by
    rw [← map_input_trace before r]
    exact List.mem_map_of_mem hy
  exact hcross _ hmem _ List.mem_cons_self

end Run

section Others

variable {r r' : Zbacs.Relay} {call : QuotaCall}

theorem quotaStep_congr (h : r.calls call.kid = r'.calls call.kid) :
    (quotaStep r call).1 = (quotaStep r' call).1 ∧
      (quotaStep r call).2.calls call.kid = (quotaStep r' call).2.calls call.kid := by
  unfold quotaStep Zbacs.Relay.takeQuota
  dsimp only
  rw [h]
  split_ifs
  · exact ⟨rfl, by simp only [Function.update_self]⟩
  · exact ⟨rfl, by simp only [Function.update_self]⟩

-- What a device is told is what it would be told if it were alone.
theorem outputsOf_trace (kid : FixedBytes 16) (calls : List QuotaCall) (h : r.calls kid = r'.calls kid) :
    outputsOf kid (trace quotaStep calls r) =
      (trace quotaStep (calls.filter fun c => c.kid = kid) r').map Taken.output := by
  induction calls generalizing r r' with
  | nil => rfl
  | cons call calls ih =>
      by_cases hkid : call.kid = kid
      · subst hkid
        obtain ⟨hout, hcalls⟩ := quotaStep_congr h
        rw [List.filter_cons_of_pos (by simp), trace, trace, List.map_cons, ← ih hcalls, outputsOf,
          List.filter_cons_of_pos (by simp [taken]), List.map_cons]
        exact congrArg (· :: _) hout
      · have hcalls := (@calls_quotaStep_of_ne r call kid (Ne.symm hkid)).trans h
        rw [List.filter_cons_of_neg (by simp [hkid]), trace, ← ih hcalls, outputsOf,
          List.filter_cons_of_neg (by simp [taken, hkid]), outputsOf]

end Others

-- However devices call as time goes on: no stretch of a minute or an hour has more calls of a device
-- that were let in than its limit, whichever it is; a call is refused just when the stretch that ends
-- with it is full already; and nobody's calls count for anybody else.
theorem quota_slides (calls : List QuotaCall)
    (htimes : calls.Pairwise fun c c' => c.now.toNanos ≤ c'.now.toNanos) :
    (∀ kid start,
      between start (start + fromSecs 60) (acceptedOf kid (trace quotaStep calls .new)) ≤ 30 ∧
      between start (start + fromSecs 3600) (acceptedOf kid (trace quotaStep calls .new)) ≤ 300) ∧
    (∀ pre x post, trace quotaStep calls .new = pre ++ x :: post →
      (x.output = .error .rateLimited ↔
        30 ≤ between (x.input.now.toNanos - fromSecs 60) x.input.now.toNanos (acceptedOf x.input.kid pre) ∨
        300 ≤ between (x.input.now.toNanos - fromSecs 3600) x.input.now.toNanos
          (acceptedOf x.input.kid pre)) ∧
      (x.output ≠ .error .rateLimited → x.output = .ok ())) ∧
    ∀ kid, outputsOf kid (trace quotaStep calls .new) =
      (trace quotaStep (calls.filter fun c => c.kid = kid) .new).map Taken.output := by
  have hlater := @along_later calls .new htimes
  have hwithin : WithinQuota (trace quotaStep calls .new) (final quotaStep calls .new) :=
    trace_induct_along withinQuota_new (fun _ _ _ h hl => (h.step hl).1) calls hlater
  have hexact : Along Exact (trace quotaStep calls .new) :=
    trace_along withinQuota_new (fun _ _ _ h hl => h.step hl) calls hlater
  refine ⟨fun kid start => ?_, fun pre x post hsplit => ?_, fun kid => outputsOf_trace kid calls rfl⟩
  · exact ⟨(hwithin.minute kid).countP_le start, (hwithin.hour kid).countP_le start⟩
  · have hout := hexact pre x post hsplit
    unfold Exact at hout
    change (_ ↔ Full (acceptedOf x.input.kid pre) x.input.now.toNanos) ∧ _
    split_ifs at hout with hfull
    · exact ⟨iff_of_true hout hfull, fun hne => absurd hout hne⟩
    · rw [hout]
      exact ⟨iff_of_false (fun h => nomatch h) hfull, fun _ => rfl⟩

namespace Reference

theorem wholeSecond : (0 : UInt32).toNat < 10 ^ 9 := by decide

def callAt (secs : UInt64) : QuotaCall := ⟨.replicate 16 1, ⟨secs, 0, wholeSecond⟩⟩

-- Thirty calls at once, one a minute later and one just after that.
def flood : List QuotaCall := List.replicate 30 (callAt 1000) ++ [callAt 1060, callAt 1061]

theorem flood_refused :
    ((trace quotaStep flood .new).map Taken.output).drop 30 = [.error .rateLimited, .ok ()] ∧
      ∀ kid start, between start (start + fromSecs 60) (acceptedOf kid (trace quotaStep flood .new)) ≤ 30 ∧
        between start (start + fromSecs 3600) (acceptedOf kid (trace quotaStep flood .new)) ≤ 300 :=
  ⟨by decide +kernel, (quota_slides flood (by decide +kernel)).1⟩

end Reference

end Zbacs.Relay
