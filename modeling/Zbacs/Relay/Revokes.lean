import Zbacs.Relay.Replay

namespace Zbacs.Relay

open Zbacs.Lib Zbacs.Proto

-- What a handler is about to queue, and where.
def Handler.put (tick : Tick) : Handler → Option (Inbox × Queued)
  | .queueing (target :: _) kind body _ =>
      some (target, ⟨⟨tick.id, kind, body, tick.now.unix⟩, tick.now⟩)
  | _ => none

-- The request a handler is about to note: the file, the device and the time.
def Handler.note (tick : Tick) : Handler → Option (FixedBytes 32 × FixedBytes 16 × Instant)
  | .noting kid request _ => some (request.fid, kid, tick.now)
  | _ => none

-- The handler a step is of, with the clock and the draw it meets.
def stepOf (x : Served) : Option (Nat × Handler × Tick) :=
  match x.input with
  | .start _ => none
  | .resume index tick => (x.before.threads[index]?).map fun h => (index, h, tick)

def noted (x : Served) : Option (FixedBytes 32 × FixedBytes 16 × Instant) :=
  (stepOf x).bind fun (_, h, tick) => h.note tick

-- When a device last asked about a file, as far as it was accepted.
def latest (fid : FixedBytes 32) (kid : FixedBytes 16) (log : List Served) : Option Instant :=
  ((log.filterMap noted).filter fun r => r.1 = fid ∧ r.2.1 = kid).getLast?.map fun r => r.2.2

-- What one handler queued in these steps.
def putBy (index : Nat) (log : List Served) : List (Inbox × Kind × Bytes) :=
  log.filterMap fun x => (stepOf x).bind fun (i, h, tick) =>
    if i = index then (h.put tick).map fun (inbox, q) => (inbox, q.envelope.kind, q.envelope.body)
    else none

-- What a step queues in one inbox.
def appendedTo (inbox : Inbox) (x : Served) : List Queued :=
  ((stepOf x).bind fun (_, h, tick) => h.put tick).toList.filterMap fun (target, q) =>
    if target = inbox then some q else none

-- How often a handler goes on.
def resumed (index : Nat) (turns : List (Turn Arrival Tick)) : Nat :=
  turns.countP fun a => match a with
    | .start _ => false
    | .resume i _ => i == index

-- Two states with the same queues and lists of interest.
structure SameBoxes (r r' : Zbacs.Relay) : Prop where
  interests : r'.interests = r.interests
  queues : r'.queues = r.queues

section Boxes

variable {L : RelayLibraries} {now : Instant} {r r' r'' : Zbacs.Relay}

theorem SameBoxes.refl (r : Zbacs.Relay) : SameBoxes r r := ⟨rfl, rfl⟩

theorem SameBoxes.trans (h : SameBoxes r r') (h' : SameBoxes r' r'') : SameBoxes r r'' :=
  ⟨h'.interests.trans h.interests, h'.queues.trans h.queues⟩

theorem takeQuota_same (kid : FixedBytes 16) : SameBoxes r (r.takeQuota kid now).2 := by
  unfold Zbacs.Relay.takeQuota
  dsimp only
  split_ifs
  · exact ⟨rfl, rfl⟩
  · exact ⟨rfl, rfl⟩

theorem takeNonce_same (nonce : FixedBytes 16) : SameBoxes r (r.takeNonce nonce now).2 := by
  unfold Zbacs.Relay.takeNonce
  dsimp only
  split_ifs
  · exact ⟨rfl, rfl⟩
  · exact ⟨rfl, rfl⟩

theorem takeQuotaAndNonce_same (kid nonce : FixedBytes 16) :
    SameBoxes r (takeQuotaAndNonce kid nonce now r).2 := by
  have hquota : SameBoxes r (r.takeQuota kid now).2 := takeQuota_same kid
  unfold takeQuotaAndNonce
  rcases hcalls : r.takeQuota kid now with ⟨result, r₁⟩
  rw [hcalls] at hquota
  cases result with
  | error e => exact hquota
  | ok =>
      have hnonce : SameBoxes r₁ (r₁.takeNonce nonce now).2 := takeNonce_same nonce
      dsimp only
      rcases hseen : r₁.takeNonce nonce now with ⟨result, r₂⟩
      rw [hseen] at hnonce
      cases result <;> exact hquota.trans hnonce

-- Whatever is decided about a submission, only the quota and the nonces are touched.
theorem Decided.same {α : Type} {out : Except ErrorCode (Signed × α) × Zbacs.Relay}
    (h : Decided now r out) (next : Signed → α → Handler) :
    SameBoxes r (continueWith next now out).2.2 := by
  cases h with
  | refused code => exact .refl r
  | @admitted signed payload hskew =>
      have hadmit : SameBoxes r (takeQuotaAndNonce signed.kid signed.nonce now r).2 :=
        takeQuotaAndNonce_same signed.kid signed.nonce
      rcases hresult : takeQuotaAndNonce signed.kid signed.nonce now r with ⟨result, r₁⟩
      rw [hresult] at hadmit
      cases result <;> exact hadmit

theorem receive_boxes (arrival : Arrival) :
    (receive L arrival now r).2.2.interests = r.interests ∧
      ∀ inbox, ((receive L arrival now r).2.2.queues inbox).Sublist (r.queues inbox) := by
  have hsame : ∀ {r'}, SameBoxes r r' → r'.interests = r.interests ∧
      ∀ inbox, (r'.queues inbox).Sublist (r.queues inbox) :=
    fun h => ⟨h.interests, fun inbox => h.queues ▸ List.Sublist.refl _⟩
  cases arrival with
  | post endpoint body =>
      cases endpoint with
      | devices => exact hsame ((authenticateAnnounce_decided body).same announced)
      | requests | grants | versions | revocations =>
          exact hsame ((authenticate_decided _ _ body).same _)
  | inbox query =>
      simp only [receive]
      cases query.target with
      | none => exact hsame (.refl r)
      | some target =>
          refine ⟨rfl, fun inbox => ?_⟩
          change (Function.update r.queues target [] inbox).Sublist _
          by_cases h : inbox = target
          · rw [h, Function.update_self]
            exact List.nil_sublist _
          · rw [Function.update_of_ne h]

-- What a step adds to an inbox; what was in it may have been taken or dropped.
theorem run_queues (h : Handler) (tick : Tick) (inbox : Inbox) :
    ∃ kept, kept.Sublist (r.queues inbox) ∧ (h.run L tick r).2.2.queues inbox =
      kept ++ (h.put tick).toList.filterMap fun (target, q) =>
        if target = inbox then some q else none := by
  cases h with
  | arrived arrival => exact ⟨_, (receive_boxes arrival).2 inbox, (List.append_nil _).symm⟩
  | queueing targets kind body id =>
      cases targets with
      | nil => exact ⟨_, .refl _, (List.append_nil _).symm⟩
      | cons target targets =>
          simp only [Handler.put, Option.toList_some, List.filterMap_cons, List.filterMap_nil]
          by_cases h : target = inbox
          · subst h
            rw [if_pos rfl]
            exact ⟨_, List.dropWhile_sublist _, Function.update_self target _ r.queues⟩
          · rw [if_neg h]
            exact ⟨_, .refl _, (Function.update_of_ne (Ne.symm h) _ r.queues).trans
              (List.append_nil _).symm⟩
  | routing grant body =>
      rw [routing_leaves.2]
      exact ⟨_, .refl _, (List.append_nil _).symm⟩
  | announcing | remembering | noting | lookingUp | replied | handed =>
      exact ⟨_, .refl _, (List.append_nil _).symm⟩

end Boxes

-- What a step does to the lists of interest.
inductive Heard (now : Instant) (r r' : Zbacs.Relay) :
    Option (FixedBytes 32 × FixedBytes 16 × Instant) → Prop where
  | kept (h : r'.interests = r.interests) : Heard now r r' none
  | pruned (h : r'.interests = fun fid => (r.interests fid).filter fun (_, since) =>
      now.durationSince since < queueTtl) : Heard now r r' none
  | noted {fid : FixedBytes 32} {kid : FixedBytes 16}
      (h : r'.interests = (r.rememberInterest fid kid now).interests) :
      Heard now r r' (some (fid, kid, now))

theorem run_heard {L : RelayLibraries} {r : Zbacs.Relay} (h : Handler) (tick : Tick) :
    Heard tick.now r (h.run L tick r).2.2 (h.note tick) := by
  cases h with
  | arrived arrival => exact .kept (receive_boxes arrival).1
  | queueing targets kind body id => cases targets <;> exact .kept rfl
  | routing grant body =>
      rw [routing_leaves.2]
      exact .kept rfl
  | lookingUp revoke body => exact .pruned rfl
  | noting kid request body => exact .noted rfl
  | announcing | remembering | replied | handed => exact .kept rfl

section Steps

variable {L : RelayLibraries} {log : List Served} {s : Server}

-- A turn is a step of a handler, or it does nothing but let a submission in.
theorem turn_step (s : Server) (a : Turn Arrival Tick) :
    (stepOf (taken (Server.turn L) s a) = none ∧ (Server.turn L s a).2.shared = s.shared ∧
        s.threads <+: (Server.turn L s a).2.threads) ∨
      ∃ index h tick, a = .resume index tick ∧ s.threads[index]? = some h ∧
        stepOf (taken (Server.turn L) s a) = some (index, h, tick) ∧
        (Server.turn L s a).2 = ⟨(h.run L tick s.shared).2.2,
          s.threads.set index (h.run L tick s.shared).2.1⟩ := by
  cases a with
  | start arrival => exact .inl ⟨rfl, rfl, List.prefix_append _ _⟩
  | resume index tick =>
      cases hthread : s.threads[index]? with
      | none =>
          left
          simp [stepOf, taken, Server.turn, Threads.turn, hthread]
      | some h =>
          right
          refine ⟨index, h, tick, rfl, hthread, by simp [stepOf, taken, hthread], ?_⟩
          exact congrArg Prod.snd (Threads.turn_resume hthread)

theorem turn_queues (s : Server) (a : Turn Arrival Tick) (inbox : Inbox) :
    ∃ kept, kept.Sublist (s.shared.queues inbox) ∧
      (Server.turn L s a).2.shared.queues inbox =
        kept ++ appendedTo inbox (taken (Server.turn L) s a) := by
  rcases turn_step (L := L) s a with ⟨hnone, hshared, -⟩ | ⟨index, h, tick, -, -, hstep, hturn⟩
  · rw [appendedTo, hnone, hshared]
    exact ⟨_, .refl _, (List.append_nil _).symm⟩
  · rw [appendedTo, hstep, hturn]
    exact run_queues h tick inbox

end Steps

-- The lists hold the devices that asked, each once, with the time of the latest request; a
-- device is missing only when a reading of the clock was too late for that request.
structure Interests (log : List Served) (r : Zbacs.Relay) : Prop where
  nodup : ∀ fid, ((r.interests fid).map Prod.fst).Nodup
  sound : ∀ fid kid t, (kid, t) ∈ r.interests fid → latest fid kid log = some t
  held : ∀ fid kid t, latest fid kid log = some t → (kid, t) ∈ r.interests fid ∨
    ∃ now ∈ readings log, queueTtl ≤ now.durationSince t

section Lists

variable {L : RelayLibraries} {log : List Served} {x : Served} {r r' : Zbacs.Relay}

theorem latest_quiet (h : noted x = none) (fid : FixedBytes 32) (kid : FixedBytes 16) :
    latest fid kid (log ++ [x]) = latest fid kid log := by
  simp [latest, h]

theorem latest_noted {f : FixedBytes 32} {k : FixedBytes 16} {t : Instant}
    (h : noted x = some (f, k, t)) (fid : FixedBytes 32) (kid : FixedBytes 16) :
    latest fid kid (log ++ [x]) = if f = fid ∧ k = kid then some t else latest fid kid log := by
  by_cases hsame : f = fid ∧ k = kid <;> simp [latest, h, hsame]

theorem Interests.quiet (h : Interests log r) (hnone : noted x = none)
    (hkept : r'.interests = r.interests) : Interests (log ++ [x]) r' := by
  refine ⟨fun fid => hkept ▸ h.nodup fid, fun fid kid t hmem => ?_, fun fid kid t hlatest => ?_⟩
  · rw [latest_quiet hnone]
    exact h.sound fid kid t (hkept ▸ hmem)
  · rw [latest_quiet hnone] at hlatest
    rw [hkept, readings_concat]
    rcases h.held fid kid t hlatest with hmem | ⟨now, hnow, hlate⟩
    · exact .inl hmem
    · exact .inr ⟨now, List.mem_append_left _ hnow, hlate⟩

theorem Interests.pruned (h : Interests log r) {now : Instant} (hnone : noted x = none)
    (hclock : clock x.input = some now)
    (hinterests : r'.interests = fun fid => (r.interests fid).filter fun (_, since) =>
      now.durationSince since < queueTtl) : Interests (log ++ [x]) r' := by
  have hreadings : readings (log ++ [x]) = readings log ++ [now] := by
    rw [readings_concat, hclock]
    rfl
  refine ⟨fun fid => ?_, fun fid kid t hmem => ?_, fun fid kid t hlatest => ?_⟩
  · rw [hinterests]
    exact (h.nodup fid).sublist (List.filter_sublist.map _)
  · rw [hinterests] at hmem
    rw [latest_quiet hnone]
    exact h.sound fid kid t (List.mem_filter.mp hmem).1
  · rw [latest_quiet hnone] at hlatest
    rw [hinterests, hreadings]
    rcases h.held fid kid t hlatest with hmem | ⟨past, hpast, hlate⟩
    · by_cases hrecent : now.durationSince t < queueTtl
      · exact .inl (List.mem_filter.mpr ⟨hmem, decide_eq_true hrecent⟩)
      · exact .inr ⟨now, List.mem_append_right _ (List.mem_singleton_self now),
          Nat.not_lt.mp hrecent⟩
    · exact .inr ⟨past, List.mem_append_left _ hpast, hlate⟩

-- A device that asks again is moved to the end.
theorem mem_rememberInterest {fid f : FixedBytes 32} {kid k : FixedBytes 16} {now t : Instant} :
    (k, t) ∈ (r.rememberInterest fid kid now).interests f ↔
      if fid = f ∧ kid = k then t = now else (k, t) ∈ r.interests f := by
  by_cases hfid : f = fid
  · subst hfid
    by_cases hkid : kid = k
    · simp [Zbacs.Relay.rememberInterest, hkid]
    · simp [Zbacs.Relay.rememberInterest, hkid, Ne.symm hkid]
  · simp [Zbacs.Relay.rememberInterest, Function.update_of_ne hfid, Ne.symm hfid]

theorem nodup_rememberInterest (fid : FixedBytes 32) (kid : FixedBytes 16) (now : Instant)
    (h : ∀ f, ((r.interests f).map Prod.fst).Nodup) (f : FixedBytes 32) :
    (((r.rememberInterest fid kid now).interests f).map Prod.fst).Nodup := by
  by_cases hfid : f = fid
  · subst hfid
    have hkept : (((r.interests f).filter fun (k, _) => k ≠ kid).map Prod.fst).Nodup :=
      (h f).sublist (List.filter_sublist.map _)
    simp only [Zbacs.Relay.rememberInterest, Function.update_self, List.map_append, List.map_cons,
      List.map_nil]
    refine List.nodup_append.mpr ⟨hkept, List.nodup_singleton _, ?_⟩
    rintro k hk _ hlast rfl
    obtain ⟨⟨k', t⟩, hmem, rfl⟩ := List.mem_map.mp hk
    have hne : k' ≠ kid := by simpa using (List.mem_filter.mp hmem).2
    exact hne (List.mem_singleton.mp hlast)
  · simp only [Zbacs.Relay.rememberInterest, Function.update_of_ne hfid]
    exact h f

theorem Interests.noted (h : Interests log r) {fid : FixedBytes 32} {kid : FixedBytes 16}
    {now : Instant} (hnoted : noted x = some (fid, kid, now))
    (hinterests : r'.interests = (r.rememberInterest fid kid now).interests) :
    Interests (log ++ [x]) r' := by
  refine ⟨fun f => hinterests ▸ nodup_rememberInterest fid kid now h.nodup f,
    fun f k t hmem => ?_, fun f k t hlatest => ?_⟩
  · rw [hinterests, mem_rememberInterest] at hmem
    rw [latest_noted hnoted]
    split_ifs at hmem ⊢
    · rw [hmem]
    · exact h.sound f k t hmem
  · rw [latest_noted hnoted] at hlatest
    rw [hinterests, mem_rememberInterest, readings_concat]
    split_ifs at hlatest ⊢
    · exact .inl (Option.some.inj hlatest).symm
    · rcases h.held f k t hlatest with hmem | ⟨past, hpast, hlate⟩
      · exact .inl hmem
      · exact .inr ⟨past, List.mem_append_left _ hpast, hlate⟩

theorem Interests.turn {s : Server} (h : Interests log s.shared) (a : Turn Arrival Tick) :
    Interests (log ++ [taken (Server.turn L) s a]) (Server.turn L s a).2.shared := by
  rcases turn_step (L := L) s a with ⟨hnone, hshared, -⟩ | ⟨index, handler, tick, rfl, -, hstep, hturn⟩
  · exact h.quiet (by rw [Relay.noted, hnone]; rfl) (congrArg _ hshared)
  · have hnoted : Relay.noted (taken (Server.turn L) s (.resume index tick)) = handler.note tick := by
      rw [Relay.noted, hstep]
      rfl
    have hheard : Heard tick.now s.shared _ _ := run_heard (L := L) handler tick
    rw [hturn]
    rw [← hnoted] at hheard
    generalize hout : Relay.noted (taken (Server.turn L) s (.resume index tick)) = out at hheard
    cases hheard with
    | kept hkept => exact h.quiet hout hkept
    | pruned hpruned => exact h.pruned hout rfl hpruned
    | noted hnew => exact h.noted hout hnew

theorem interests_final (turns : List (Turn Arrival Tick)) :
    Interests (trace (Server.turn L) turns Server.start)
      (final (Server.turn L) turns Server.start).shared := by
  refine @trace_induct _ _ _ (Server.turn L) (fun log s => Interests log s.shared) _ ?_
    (fun log s a h => h.turn a) turns
  exact ⟨fun _ => List.nodup_nil, fun _ _ _ hmem => absurd hmem List.not_mem_nil,
    fun _ _ _ hlatest => by simp [latest] at hlatest⟩

end Lists

section Puts

variable {L : RelayLibraries} {log : List Served} {index : Nat}

theorem putBy_append (log log' : List Served) :
    putBy index (log ++ log') = putBy index log ++ putBy index log' :=
  List.filterMap_append

-- What one step of a handler queues.
def Handler.puts (tick : Tick) (h : Handler) : List (Inbox × Kind × Bytes) :=
  ((h.put tick).map fun (inbox, q) => (inbox, q.envelope.kind, q.envelope.body)).toList

theorem putBy_none {x : Served} (h : stepOf x = none) : putBy index [x] = [] := by
  simp [putBy, h]

theorem putBy_self {x : Served} {h : Handler} {tick : Tick} (hstep : stepOf x = some (index, h, tick)) :
    putBy index [x] = h.puts tick := by
  cases hput : h.put tick <;> simp [putBy, hstep, Handler.puts, hput]

theorem putBy_other {x : Served} {i : Nat} {h : Handler} {tick : Tick}
    (hstep : stepOf x = some (i, h, tick)) (hne : i ≠ index) : putBy index [x] = [] := by
  simp [putBy, hstep, hne]

theorem resumed_cons (a : Turn Arrival Tick) (turns : List (Turn Arrival Tick)) :
    resumed index (a :: turns) = resumed index [a] + resumed index turns := by
  rw [resumed, ← List.singleton_append, List.countP_append]
  rfl

theorem resumed_self (tick : Tick) : resumed index [.resume index tick] = 1 := by
  simp [resumed]

theorem turn_mine {s : Server} {h : Handler} (hthread : s.threads[index]? = some h) (tick : Tick) :
    putBy index [taken (Server.turn L) s (.resume index tick)] = h.puts tick ∧
      (Server.turn L s (.resume index tick)).2.threads[index]? =
        some (h.run L tick s.shared).2.1 := by
  refine ⟨putBy_self (by simp [stepOf, taken, hthread]), ?_⟩
  exact Threads.thread_ran tick hthread

theorem turn_others {s : Server} {h : Handler} (hthread : s.threads[index]? = some h)
    {a : Turn Arrival Tick} (hother : ∀ tick, a ≠ .resume index tick) :
    putBy index [taken (Server.turn L) s a] = [] ∧ resumed index [a] = 0 ∧
      (Server.turn L s a).2.threads[index]? = some h := by
  have hresumed : resumed index [a] = 0 := by
    cases a with
    | start arrival => rfl
    | resume i tick =>
        have hne : i ≠ index := fun heq => hother tick (heq ▸ rfl)
        simp [resumed, hne]
  have hput : putBy index [taken (Server.turn L) s a] = [] := by
    rcases turn_step (L := L) s a with ⟨hnone, -⟩ | ⟨i, h', tick, rfl, -, hstep, -⟩
    · exact putBy_none hnone
    · exact putBy_other hstep fun heq => hother tick (heq ▸ rfl)
  exact ⟨hput, hresumed, Threads.thread_kept hthread hother⟩

theorem putBy_trace_cons (s : Server) (a : Turn Arrival Tick) (turns : List (Turn Arrival Tick)) :
    putBy index (trace (Server.turn L) (a :: turns) s) =
      putBy index [taken (Server.turn L) s a] ++
        putBy index (trace (Server.turn L) turns (Server.turn L s a).2) :=
  putBy_append [_] _

theorem replied_puts {s : Server} {ack : Ack} (hthread : s.threads[index]? = some (.replied ack))
    (turns : List (Turn Arrival Tick)) : putBy index (trace (Server.turn L) turns s) = [] := by
  induction turns generalizing s with
  | nil => rfl
  | cons a turns ih =>
      rw [putBy_trace_cons]
      by_cases hmine : ∃ tick, a = .resume index tick
      · obtain ⟨tick, rfl⟩ := hmine
        obtain ⟨hput, hnext⟩ := turn_mine (L := L) hthread tick
        rw [hput, ih hnext]
        rfl
      · obtain ⟨hput, -, hnext⟩ := turn_others (L := L) hthread (not_exists.mp hmine)
        rw [hput, ih hnext]
        rfl

-- A handler that has inboxes to queue a body in does one of them each time it goes on.
theorem queueing_puts {s : Server} {targets : List Inbox} {kind : Kind} {body : Bytes}
    {id : FixedBytes 16} (hthread : s.threads[index]? = some (.queueing targets kind body id))
    (turns : List (Turn Arrival Tick)) : putBy index (trace (Server.turn L) turns s) =
      (targets.map fun target => (target, kind, body)).take (resumed index turns) := by
  induction turns generalizing s targets id with
  | nil => exact (List.take_zero).symm
  | cons a turns ih =>
      rw [putBy_trace_cons, resumed_cons]
      by_cases hmine : ∃ tick, a = .resume index tick
      · obtain ⟨tick, rfl⟩ := hmine
        obtain ⟨hput, hnext⟩ := turn_mine (L := L) hthread tick
        rw [hput, resumed_self, Nat.add_comm]
        cases targets with
        | nil =>
            rw [replied_puts hnext]
            rfl
        | cons target targets =>
            rw [ih hnext]
            rfl
      · obtain ⟨hput, hresumed, hnext⟩ := turn_others (L := L) hthread (not_exists.mp hmine)
        rw [hput, hresumed, Nat.zero_add]
        exact ih hnext

-- A handler that has not come to queueing.
def Handler.early : Handler → Bool
  | .queueing .. | .replied _ | .handed _ => false
  | _ => true

theorem run_early {h : Handler} {tick : Tick} {r : Zbacs.Relay}
    (hearly : (h.run L tick r).2.1.early = true) : h.early = true ∧ h.puts tick = [] := by
  cases h with
  | queueing targets kind body id => cases targets <;> cases hearly
  | replied | handed => cases hearly
  | arrived | announcing | remembering | noting | routing | lookingUp => exact ⟨rfl, rfl⟩

-- So far it has queued nothing.
theorem early_puts (turns : List (Turn Arrival Tick)) (index : Nat)
    (hearly : ∀ h, (final (Server.turn L) turns Server.start).threads[index]? = some h →
      h.early = true) : putBy index (trace (Server.turn L) turns Server.start) = [] := by
  refine @trace_induct _ _ _ (Server.turn L) (fun log s => ∀ index,
    (∀ h, s.threads[index]? = some h → h.early = true) → putBy index log = []) _
    (fun _ _ => rfl) ?_ turns index hearly
  intro log s a ih index hearly
  rw [putBy_append]
  cases hthread : s.threads[index]? with
  | none =>
      have hnone : putBy index [taken (Server.turn L) s a] = [] := by
        rcases turn_step (L := L) s a with ⟨hnone, -⟩ | ⟨i, h, tick, -, hsome, hstep, -⟩
        · exact putBy_none hnone
        · refine putBy_other hstep ?_
          rintro rfl
          rw [hthread] at hsome
          cases hsome
      rw [hnone, ih index (by simp [hthread])]
      rfl
  | some h =>
      by_cases hmine : ∃ tick, a = .resume index tick
      · obtain ⟨tick, rfl⟩ := hmine
        obtain ⟨hput, hnext⟩ := turn_mine (L := L) hthread tick
        obtain ⟨hbefore, hnothing⟩ := run_early (hearly _ hnext)
        rw [hput, hnothing, ih index (by simpa [hthread] using hbefore)]
        rfl
      · obtain ⟨hput, -, hnext⟩ := turn_others (L := L) hthread (not_exists.mp hmine)
        rw [hput, ih index (by simpa [hthread] using hearly h hnext)]
        rfl

end Puts

section Lookup

variable {L : RelayLibraries} {log : List Served} {r : Zbacs.Relay} {fid : FixedBytes 32}
  {kid : FixedBytes 16} {now t : Instant}

-- What is young at this reading was young at all before it.
theorem Interests.held_young (h : Interests log r)
    (hclock : ∀ past ∈ readings log, past.toNanos ≤ now.toNanos) (hlatest : latest fid kid log = some t) (hyoung : now.durationSince t < queueTtl) :
    (kid, t) ∈ r.interests fid := by
  rcases h.held fid kid t hlatest with hmem | ⟨past, hpast, hlate⟩
  · exact hmem
  · have hle := hclock past hpast
    unfold Instant.durationSince at hyoung hlate
    omega

theorem Interests.mem_interested (h : Interests log r)
    (hclock : ∀ past ∈ readings log, past.toNanos ≤ now.toNanos) :
    kid ∈ (r.interested fid now).1 ↔
      ∃ t, latest fid kid log = some t ∧ now.durationSince t < queueTtl := by
  simp only [Zbacs.Relay.interested, List.mem_map, List.mem_filter, Prod.exists]
  constructor
  · rintro ⟨_, t, ⟨hmem, hyoung⟩, rfl⟩
    exact ⟨t, h.sound fid _ t hmem, of_decide_eq_true hyoung⟩
  · rintro ⟨t, hlatest, hyoung⟩
    exact ⟨kid, t, ⟨h.held_young hclock hlatest hyoung, decide_eq_true hyoung⟩, rfl⟩

theorem Interests.nodup_interested (h : Interests log r) (fid : FixedBytes 32) (now : Instant) :
    (r.interested fid now).1.Nodup :=
  (h.nodup fid).sublist (List.filter_sublist.map _)

end Lookup

-- A revoke is queued once for each device whose latest request about the file is less than a day
-- old when it looks them up, and for nobody else; the handler does one of them each time it goes
-- on. What is pruned is never that young, and no device is listed twice.
theorem revoke_fans_out (L : RelayLibraries) (turns : List (Turn Arrival Tick))
    (hclock : Forward turns) :
    (∀ fid, (((final (Server.turn L) turns Server.start).shared.interests fid).map Prod.fst).Nodup) ∧
    (∀ x ∈ trace (Server.turn L) turns Server.start, ∀ inbox,
      ∃ kept, kept.Sublist (x.before.shared.queues inbox) ∧
        x.after.shared.queues inbox = kept ++ appendedTo inbox x) ∧
    ∀ before index tick after revoke body, turns = before ++ .resume index tick :: after →
      (final (Server.turn L) before Server.start).threads[index]? = some (.lookingUp revoke body) →
      (∀ fid kid t, latest fid kid (trace (Server.turn L) before Server.start) = some t →
        tick.now.durationSince t < queueTtl → (kid, t) ∈ (Server.turn L
          (final (Server.turn L) before Server.start) (.resume index tick)).2.shared.interests fid) ∧
      ∃ kids : List (FixedBytes 16), kids.Nodup ∧
        (∀ kid, kid ∈ kids ↔ ∃ t,
          latest revoke.fid kid (trace (Server.turn L) before Server.start) = some t ∧
          tick.now.durationSince t < queueTtl) ∧
        putBy index (trace (Server.turn L) turns Server.start) =
          (kids.map fun kid => (.device kid, .revoke, body)).take (resumed index after) := by
  refine ⟨(interests_final turns).nodup, fun x hx inbox => ?_, ?_⟩
  · obtain ⟨before, a, after, -, rfl⟩ := exists_of_mem_trace hx
    exact turn_queues _ a inbox
  rintro before index tick after revoke body rfl hthread
  have hlists := interests_final (L := L) before
  have hpast : ∀ past ∈ readings (trace (Server.turn L) before Server.start),
      past.toNanos ≤ tick.now.toNanos := by
    intro past hmem
    rw [readings_trace] at hmem
    rw [Forward, List.filterMap_append] at hclock
    exact (List.pairwise_append.mp hclock).2.2 past hmem _ List.mem_cons_self
  generalize hs : final (Server.turn L) before Server.start = s at hthread hlists ⊢
  obtain ⟨hput, hnext⟩ := turn_mine (L := L) hthread tick
  have hshared : (Server.turn L s (.resume index tick)).2.shared =
      (s.shared.interested revoke.fid tick.now).2 := by
    rw [Server.turn, Threads.turn_resume hthread]
    rfl
  refine ⟨fun fid kid t hlatest hyoung => ?_, (s.shared.interested revoke.fid tick.now).1,
    hlists.nodup_interested _ _, fun kid => hlists.mem_interested hpast, ?_⟩
  · rw [hshared]
    exact List.mem_filter.mpr ⟨hlists.held_young hpast hlatest hyoung, decide_eq_true hyoung⟩
  · have hbefore : putBy index (trace (Server.turn L) before Server.start) = [] := by
      refine early_puts before index fun h hmem => ?_
      rw [hs, hthread] at hmem
      cases hmem
      rfl
    rw [trace_append, hs, putBy_append, hbefore, putBy_trace_cons, hput, queueing_puts hnext,
      List.map_map]
    rfl

-- A device that is known, with calls left and a fresh nonce, is let in.
theorem authenticate_known {L : RelayLibraries} {r : Zbacs.Relay} {now : Instant} {α : Type}
    {kind : Kind} {codec : Codec α} (hcodec : codec.RoundTrips) (hsign : L.ed25519.Correct)
    {device : DeviceIdentity L.toLibraries} {d : Device} {a : α} {ts : UInt64}
    {nonce : FixedBytes 16} {signed : Signed} {body : Bytes}
    (hknown : r.devices device.kid = some d) (hkey : d.ed25519Pub = device.ed25519Pub)
    (hcalls : (r.calls device.kid).length < ratePerMinute) (hnonce : r.nonces nonce = none)
    (hskew : absDiff now.unix ts ≤ maxSkewSecs)
    (h : Signed.sign L.toLibraries kind codec device a ts nonce = .ok signed)
    (hbody : Signed.fromBytes L.toLibraries body = .ok signed) :
    ∃ r', authenticate L kind codec body now r = (.ok (signed, a), r') ∧ r'.devices = r.devices ∧
      (r'.calls device.kid).length ≤ (r.calls device.kid).length + 1 ∧
      ∀ n ≠ nonce, r.nonces n = none → r'.nonces n = none := by
  have hlen := length_of_fromBytes hbody
  obtain ⟨hverify, -, hkid⟩ := verify_sign hcodec hsign hskew h
  rw [← hkey] at hverify
  obtain ⟨r', hquota, hafter⟩ := @takeQuotaAndNonce_ok device.kid nonce now r hcalls hnonce
  refine ⟨r', ?_, hafter⟩
  simp only [authenticate, if_neg hlen, hbody, hkid, hknown, hverify, hquota]

theorem announce_known (kid : FixedBytes 16) (d : Device) (r : Zbacs.Relay) :
    (r.announce kid d).devices kid = some d := Function.update_self ..

namespace Reference

def request : AccessRequest :=
  ⟨.replicate 32 7, .replicate 32 8, [1], device.kid, device.x25519Pub, device.ed25519Pub, 0,
    .replicate 16 9, none, 1001⟩

def revoke : Revoke := ⟨.replicate 32 3, .replicate 32 7, 1002⟩

-- A device announces itself, asks about a file and has its access to it revoked.
def asking (announcement request revoke : Bytes) : List (Turn Arrival Tick) :=
  [.start (.post .devices announcement), .resume 0 (tick 1000), .resume 0 (tick 1000),
    .start (.post .requests request), .resume 1 (tick 1001), .resume 1 (tick 1001),
    .resume 1 (tick 1001), .start (.post .revocations revoke), .resume 2 (tick 1002)]

def revoking (announcement request revoke : Bytes) : List (Turn Arrival Tick) :=
  asking announcement request revoke ++
    .resume 2 (tick 1003) :: [.resume 2 (tick 1003), .resume 2 (tick 1004)]

theorem revoking_forward (announcement request revoke : Bytes) :
    Forward (revoking announcement request revoke) := by
  change List.Pairwise _ [(tick 1000).now, (tick 1000).now, (tick 1001).now, (tick 1001).now,
    (tick 1001).now, (tick 1002).now, (tick 1003).now, (tick 1003).now, (tick 1004).now]
  decide

-- What a device signs that the relay knows.
theorem passes_known {α : Type} {w : Cbor.Wire α} {a : α} (hsize : w.size a ≤ 60000) (kind : Kind)
    (nonce : FixedBytes 16) {ts : UInt64} {r : Zbacs.Relay} {now : Instant}
    (hskew : absDiff now.unix ts ≤ maxSkewSecs)
    (hknown : r.devices device.kid = some ⟨device.ed25519Pub, device.x25519Pub, none⟩)
    (hcalls : (r.calls device.kid).length < ratePerMinute) (hnonce : r.nonces nonce = none) :
    ∃ signed r', Signed.fromBytes libraries.toLibraries (signedWire.put signed) = .ok signed ∧
      signed.kid = device.kid ∧
      authenticate libraries kind w.codec (signedWire.put signed) now r = (.ok (signed, a), r') ∧
      r'.devices = r.devices ∧ (r'.calls device.kid).length ≤ (r.calls device.kid).length + 1 ∧
      ∀ n ≠ nonce, r.nonces n = none → r'.nonces n = none := by
  have hcorrect : libraries.ed25519.Correct := Core.Reference.primitives_lawful.ed25519
  obtain ⟨signed, hsign, hbody⟩ := Proto.Reference.sign_ok hsize kind device ts nonce
  obtain ⟨-, -, hkid⟩ := @verify_sign libraries _ _ _ w.codec_roundTrips hcorrect device _ _ now.unix
    _ _ hskew hsign
  obtain ⟨r', hauth, hafter⟩ := @authenticate_known libraries r now _ kind w.codec
    w.codec_roundTrips hcorrect device _ a ts nonce _ _ hknown rfl hcalls hnonce hskew hsign hbody
  exact ⟨signed, r', hbody, hkid, hauth, hafter⟩

-- The revoke is about to look up who asked, and the device has.
theorem asking_asked : ∃ announcement request body signed,
    Signed.fromBytes libraries.toLibraries body = .ok signed ∧
    (final (Server.turn libraries) (asking announcement request body) Server.start).threads[2]? =
      some (.lookingUp revoke body) ∧
    ∀ kid, latest revoke.fid kid
      (trace (Server.turn libraries) (asking announcement request body) Server.start) =
        if device.kid = kid then some (tick 1001).now else none := by
  obtain ⟨signed₀, r₀, -, hrun₀, -, hcalls₀, hfree₀⟩ := announcement_arrives
  obtain ⟨signed₁, r₁, -, hkid₁, hauth₁, hdevices₁, hcalls₁, hfree₁⟩ := @passes_known _ requestWire
    request ((requestWire_size request).trans (by decide)) .req (.replicate 16 6) 1001
    (r₀.announce device.kid ⟨device.ed25519Pub, device.x25519Pub, none⟩) (tick 1001).now (by decide)
    (announce_known ..) (Nat.lt_of_le_of_lt hcalls₀ (by decide)) (hfree₀ _ (by decide))
  obtain ⟨signed₂, r₂, hbody₂, -, hauth₂, -⟩ := @passes_known _ revokeWire revoke (by decide)
    .revoke (.replicate 16 7) 1002
    ((r₁.rememberRequest request.nonce device.kid (tick 1001).now).rememberInterest request.fid
      device.kid (tick 1001).now) (tick 1002).now (by decide) (hdevices₁ ▸ announce_known ..)
    (Nat.lt_of_le_of_lt (hcalls₁.trans (Nat.succ_le_succ hcalls₀)) (by decide))
    (hfree₁ _ (by decide) (hfree₀ _ (by decide)))
  have hrun₁ : Handler.run libraries (.arrived (.post .requests (signedWire.put signed₁))) (tick 1001)
      (r₀.announce device.kid ⟨device.ed25519Pub, device.x25519Pub, none⟩) =
        ([⟨signed₁, (tick 1001).now⟩], .remembering device.kid request (signedWire.put signed₁), r₁) := by
    simp only [Handler.run, receive]
    rw [show libraries.requestCodec = requestWire.codec from rfl, hauth₁]
    simp only [continueWith, requested, hkid₁]
    rw [if_neg (by decide), if_neg (by decide)]
  have hrun₂ : Handler.run libraries (.arrived (.post .revocations (signedWire.put signed₂)))
      (tick 1002) ((r₁.rememberRequest request.nonce device.kid (tick 1001).now).rememberInterest
        request.fid device.kid (tick 1001).now) =
        ([⟨signed₂, (tick 1002).now⟩], .lookingUp revoke (signedWire.put signed₂), r₂) := by
    simp only [Handler.run, receive]
    rw [show libraries.revokeCodec = revokeWire.codec from rfl, hauth₂]
    rfl
  have hannouncing : ∀ kid d t r, Handler.run libraries (.announcing kid d) t r =
      ([], .replied (accept kid), r.announce kid d) := fun _ _ _ _ => rfl
  have hremembering : ∀ kid request body t r,
      Handler.run libraries (.remembering kid request body) t r =
        ([], .noting kid request body, r.rememberRequest request.nonce kid t.now) :=
    fun _ _ _ _ _ => rfl
  have hnoting : ∀ kid request body t r, Handler.run libraries (.noting kid request body) t r =
      ([], .queueing [.owner request.owner] .req body (.replicate 16 0),
        r.rememberInterest request.fid kid t.now) := fun _ _ _ _ _ => rfl
  have hnoted : (trace (Server.turn libraries) (asking (signedWire.put signed₀) (signedWire.put signed₁)
      (signedWire.put signed₂)) Server.start).filterMap noted =
        [(request.fid, device.kid, (tick 1001).now)] := by
    simp only [trace, asking, taken, Server.turn, Threads.turn, Server.start, List.nil_append,
      List.cons_append, List.getElem?_cons_zero, List.getElem?_cons_succ, List.set_cons_zero,
      List.set_cons_succ, hrun₀, hrun₁, hrun₂, hannouncing, hremembering, hnoting]
    rfl
  refine ⟨signedWire.put signed₀, signedWire.put signed₁, signedWire.put signed₂, signed₂, hbody₂, ?_,
    fun kid => ?_⟩
  · simp [final, asking, Server.turn, Threads.turn, Server.start, hrun₀, hrun₁, hrun₂, hannouncing,
      hremembering, hnoting]
  · rw [latest, hnoted]
    by_cases hkid : device.kid = kid <;> simp [hkid, request, revoke]

theorem revoke_fanned_out : ∃ announcement request body signed,
    Forward (revoking announcement request body) ∧
    Signed.fromBytes libraries.toLibraries body = .ok signed ∧
    putBy 2 (trace (Server.turn libraries) (revoking announcement request body) Server.start) =
      [(.device device.kid, .revoke, body)] := by
  obtain ⟨announcement, request, body, signed, hbody, hthread, hlatest⟩ := asking_asked
  have hforward := revoking_forward announcement request body
  obtain ⟨kids, hnodup, hkids, hput⟩ := ((revoke_fans_out libraries _ hforward).2.2 _ 2 (tick 1003) _
    revoke body rfl hthread).2
  have hone : kids = [device.kid] := by
    have hmem : ∀ kid, kid ∈ kids ↔ device.kid = kid := by
      intro kid
      rw [hkids, hlatest]
      constructor
      · rintro ⟨t, hsome, -⟩
        by_contra hne
        rw [if_neg hne] at hsome
        cases hsome
      · rintro rfl
        exact ⟨_, if_pos rfl, by decide⟩
    refine List.perm_singleton.mp ((List.perm_ext_iff_of_nodup hnodup (List.nodup_singleton _)).mpr ?_)
    intro kid
    rw [hmem, List.mem_singleton, eq_comm]
  refine ⟨announcement, request, body, signed, hforward, hbody, ?_⟩
  rw [hput, hone]
  rfl

end Reference

end Zbacs.Relay
