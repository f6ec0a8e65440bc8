import Mathlib.Data.List.TakeWhile
import Zbacs.Relay.Answers
import Zbacs.Relay.Stream

namespace Zbacs.Relay

open Zbacs.Lib Zbacs.Proto

-- A reader has taken this out of the inbox and still has to write it.
def Task.Holds (inbox : Inbox) (e : Envelope) (t : Task) : Prop :=
  ∃ unsent, t.unsent = some (inbox, unsent) ∧ e ∈ unsent

-- How many writes it takes at most until all is written.
def Task.writes (t : Task) : Nat := t.unsent.elim 0 fun (_, unsent) => unsent.length

-- The message is queued by this step.
def Accepts (inbox : Inbox) (q : Queued) (x : Streamed) : Prop :=
  ∃ index tick written submission, x.input = .resume index (.goesOn tick written) ∧
    x.before.threads[index]? = some (.submitting submission) ∧
    submission.val.put tick = some (inbox, q)

-- A write fails, and the message is in the batch and not written yet.
def Loses (inbox : Inbox) (e : Envelope) (x : Streamed) : Prop :=
  ∃ index tick t, x.input = .resume index (.goesOn tick false) ∧
    x.before.threads[index]? = some t ∧ t.Holds inbox e

-- A day has not passed since the message was queued.
def Timely (q : Queued) : Turn Call Meets → Prop
  | .resume _ (.goesOn tick _) => tick.now.durationSince q.queuedAt ≤ queueTtl
  | _ => True

instance (q : Queued) : DecidablePred (Timely q)
  | .resume _ (.goesOn _ _) => inferInstanceAs (Decidable (_ ≤ _))
  | .start _ | .resume _ (.frame _) => .isTrue trivial

-- How often a task goes on.
def goings (index : Nat) (turns : List (Turn Call Meets)) : Nat :=
  turns.countP fun a => match a with
    | .resume i (.goesOn _ _) => i == index
    | _ => false

def events (log : List Streamed) : List Event := log.flatMap Taken.output

-- Where a message is.
inductive Kept (inbox : Inbox) (q : Queued) (log : List Streamed) (s : System) : Prop where
  | queued (h : q ∈ s.shared.queues inbox)
  | held {index : Nat} {t : Task} (hthread : s.threads[index]? = some t)
      (h : t.Holds inbox q.envelope)
  | handed (h : .handed inbox q.envelope ∈ events log)

section Step

variable {L : RelayLibraries} {r : Zbacs.Relay} {inbox : Inbox} {q : Queued} {e : Envelope}

theorem mem_enqueue (target : Inbox) (kind : Kind) (body : Bytes) (id : FixedBytes 16) {now : Instant}
    (hq : q ∈ r.queues inbox) (htimely : now.durationSince q.queuedAt ≤ queueTtl) :
    q ∈ (r.enqueue target kind body id now).queues inbox := by
  have hqueues : (r.enqueue target kind body id now).queues = Function.update r.queues target
    (((r.queues target).dropWhile fun q => now.durationSince q.queuedAt > queueTtl) ++
      [⟨⟨id, kind, body, now.unix⟩, now⟩]) := rfl
  rw [hqueues]
  by_cases hmine : inbox = target
  · subst hmine
    rw [Function.update_self]
    rw [← List.takeWhile_append_dropWhile (p := fun q : Queued =>
      decide (now.durationSince q.queuedAt > queueTtl)) (l := r.queues inbox)] at hq
    rcases List.mem_append.mp hq with hold | hkept
    · have hlate := List.mem_takeWhile_imp hold
      exact absurd (of_decide_eq_true hlate) (Nat.not_lt.mpr htimely)
    · exact List.mem_append_left _ hkept
  · rwa [Function.update_of_ne hmine]

theorem mem_drain (target : Inbox) {now : Instant} (hq : q ∈ r.queues inbox)
    (htimely : now.durationSince q.queuedAt ≤ queueTtl) :
    q ∈ (r.drain target now).2.queues inbox ∨
      inbox = target ∧ q.envelope ∈ (r.drain target now).1 := by
  by_cases hmine : inbox = target
  · subst hmine
    exact .inr ⟨rfl, List.mem_map.mpr ⟨q, List.mem_filter.mpr ⟨hq, decide_eq_true htimely⟩, rfl⟩⟩
  · left
    change q ∈ Function.update r.queues target [] inbox
    rwa [Function.update_of_ne hmine]

-- The steps of a submission leave in the queues what is not too old.
theorem posting_keeps {h : Handler} (hpost : h.posting = true) {tick : Tick}
    (hq : q ∈ r.queues inbox) (htimely : tick.now.durationSince q.queuedAt ≤ queueTtl) :
    q ∈ (h.run L tick r).2.2.queues inbox := by
  cases h with
  | arrived arrival =>
      cases arrival with
      | inbox query => cases hpost
      | post e body =>
          have hchecked := @arrived_checked L r e body tick
          generalize (Handler.arrived (.post e body)).run L tick r = out at hchecked ⊢
          cases hchecked with
          | unfit | refused => exact hq
          | @metered signed =>
              rw [(takeQuotaAndNonce_metered signed.kid signed.nonce r).queues]
              exact hq
  | queueing targets kind body id =>
      cases targets with
      | nil => exact hq
      | cons target targets => exact mem_enqueue target kind body tick.id hq htimely
  | routing grant body =>
      rw [routing_leaves.2]
      exact hq
  | handed => cases hpost
  | announcing | remembering | noting | lookingUp | replied => exact hq

-- What is queued stays, or a reader takes it.
theorem run_keeps (t : Task) (m : Meets) (index : Nat) (hq : q ∈ r.queues inbox)
    (htimely : Timely q (.resume index m)) :
    q ∈ (t.run L m r).2.2.queues inbox ∨ (t.run L m r).2.1.Holds inbox q.envelope := by
  cases m with
  | frame bytes => cases t <;> exact .inl hq
  | goesOn tick written =>
      cases t with
      | submitting submission => exact .inl (posting_keeps submission.property hq htimely)
      | reading query =>
          simp only [Task.run]
          cases query.target with
          | none => exact .inl hq
          | some target =>
              exact (mem_drain target hq htimely).imp id fun ⟨hmine, hmem⟩ => ⟨_, by rw [hmine]; rfl, hmem⟩
      | upgrading query =>
          simp only [Task.run]
          cases query.streamTarget <;> exact .inl hq
      | streaming c =>
          obtain ⟨target, frames, received, pump⟩ := c
          cases pump with
          | waiting =>
              exact (mem_drain target hq htimely).imp id fun ⟨hmine, hmem⟩ => ⟨_, by rw [hmine]; rfl, hmem⟩
          | sending unsent =>
              left
              cases unsent with
              | nil => exact hq
              | cons envelope unsent => cases written <;> exact hq
          | closed => exact .inl hq
      | responding | refused | responded => exact .inl hq

-- What a reader holds it writes, or holds on to.
theorem run_hands {t : Task} {m : Meets} (hheld : t.Holds inbox e)
    (hwritten : ∀ tick, m ≠ .goesOn tick false) :
    .handed inbox e ∈ (t.run L m r).1 ∨ (t.run L m r).2.1.Holds inbox e ∧
      ((∃ tick written, m = .goesOn tick written) → (t.run L m r).2.1.writes < t.writes) := by
  obtain ⟨unsent, hunsent, hmem⟩ := hheld
  cases t with
  | submitting | reading | upgrading | refused | responded => cases hunsent
  | responding target envelopes =>
      cases hunsent
      cases m with
      | frame bytes => exact .inr ⟨⟨_, rfl, hmem⟩, by rintro ⟨tick, written, h⟩; cases h⟩
      | goesOn tick written =>
          cases written with
          | false => exact absurd rfl (hwritten tick)
          | true => exact .inl (List.mem_map_of_mem hmem)
  | streaming c =>
      obtain ⟨target, frames, received, pump⟩ := c
      cases pump with
      | waiting | closed => cases hunsent
      | sending unsent =>
          cases hunsent
          cases m with
          | frame bytes => exact .inr ⟨⟨_, rfl, hmem⟩, by rintro ⟨tick, written, h⟩; cases h⟩
          | goesOn tick written =>
              cases written with
              | false => exact absurd rfl (hwritten tick)
              | true =>
                  cases unsent with
                  | nil => exact absurd hmem List.not_mem_nil
                  | cons envelope unsent =>
                      rcases List.mem_cons.mp hmem with rfl | hlater
                      · exact .inl (List.mem_singleton_self _)
                      · exact .inr ⟨⟨_, rfl, hlater⟩, fun _ => Nat.lt_succ_self _⟩

end Step

section Run

variable {L : RelayLibraries} {s : System} {log : List Streamed} {inbox : Inbox} {q : Queued}
  {e : Envelope} {index : Nat} {t : Task}

theorem events_append (log log' : List Streamed) : events (log ++ log') = events log ++ events log' :=
  List.flatMap_append

theorem turn_thread {m : Meets} (hthread : s.threads[index]? = some t) :
    System.turn L s (.resume index m) = ((t.run L m s.shared).1,
      ⟨(t.run L m s.shared).2.2, s.threads.set index (t.run L m s.shared).2.1⟩) :=
  Threads.turn_resume hthread

theorem Kept.turn (h : Kept inbox q log s) {a : Turn Call Meets} (htimely : Timely q a)
    (hwritten : ¬Loses inbox q.envelope (taken (System.turn L) s a)) :
    Kept inbox q (log ++ [taken (System.turn L) s a]) (System.turn L s a).2 := by
  cases h with
  | handed h =>
      refine .handed ?_
      rw [events_append]
      exact List.mem_append_left _ h
  | queued h =>
      rcases @Threads.turn_cases _ _ _ _ _ Task.begin (Task.run L) s a with ⟨-, hshared⟩ |
        ⟨i, m, t, rfl, hi, hturn⟩
      · exact .queued (show q ∈ (System.turn L s a).2.shared.queues inbox from hshared ▸ h)
      · rcases run_keeps (L := L) t m i h htimely with hqueued | hheld
        · rw [System.turn, hturn]
          exact .queued hqueued
        · exact .held (Threads.thread_ran m hi) hheld
  | @held index t hthread h =>
      by_cases hmine : ∃ m, a = .resume index m
      · obtain ⟨m, rfl⟩ := hmine
        have hgood : ∀ tick, m ≠ .goesOn tick false := by
          rintro tick rfl
          exact hwritten ⟨index, tick, t, rfl, hthread, h⟩
        rcases run_hands (L := L) (r := s.shared) h hgood with hhanded | ⟨hheld, -⟩
        · refine .handed ?_
          rw [events_append]
          refine List.mem_append_right _ ?_
          rw [events, List.flatMap_singleton, taken, turn_thread hthread]
          exact hhanded
        · exact .held (Threads.thread_ran m hthread) hheld
      · exact .held (Threads.thread_kept hthread (not_exists.mp hmine)) h

theorem Kept.final (hkept : Kept inbox q [] s) {turns : List (Turn Call Meets)}
    (htimely : ∀ a ∈ turns, Timely q a)
    (hwritten : ∀ x ∈ trace (System.turn L) turns s, ¬Loses inbox q.envelope x) :
    Kept inbox q (trace (System.turn L) turns s) (Lib.final (System.turn L) turns s) := by
  refine @trace_induct_along _ _ _ (System.turn L)
    (fun _ x => Timely q x.input ∧ ¬Loses inbox q.envelope x) (Kept inbox q) s hkept
    (fun log s a h hok => h.turn hok.1 hok.2) turns ?_
  intro pre x post hlog
  have hx : x ∈ trace (System.turn L) turns s := hlog ▸ List.mem_append_right _ List.mem_cons_self
  obtain ⟨before, a, after, hturns, rfl⟩ := exists_of_mem_trace hx
  exact ⟨htimely a (hturns ▸ List.mem_append_right _ List.mem_cons_self), hwritten _ hx⟩

-- A reader that goes on writes all it holds.
theorem handed_of_goings (hthread : s.threads[index]? = some t) (hheld : t.Holds inbox e)
    {turns : List (Turn Call Meets)}
    (hwritten : ∀ x ∈ trace (System.turn L) turns s, ¬Loses inbox e x)
    (hgoings : t.writes ≤ goings index turns) :
    .handed inbox e ∈ events (trace (System.turn L) turns s) := by
  induction turns generalizing s t with
  | nil =>
      obtain ⟨unsent, hunsent, hmem⟩ := hheld
      have hpos := List.length_pos_of_mem hmem
      rw [Task.writes, hunsent] at hgoings
      exact absurd hgoings (Nat.not_le.mpr hpos)
  | cons a turns ih =>
      have hnow := hwritten _ List.mem_cons_self
      have hlater := fun x hx => hwritten x (List.mem_cons_of_mem _ hx)
      rw [trace, events, List.flatMap_cons]
      by_cases hmine : ∃ m, a = .resume index m
      · obtain ⟨m, rfl⟩ := hmine
        have hgood : ∀ tick, m ≠ .goesOn tick false := by
          rintro tick rfl
          exact hnow ⟨index, tick, t, rfl, hthread, hheld⟩
        rcases run_hands (L := L) (r := s.shared) hheld hgood with hhanded | ⟨hheld', hfewer⟩
        · refine List.mem_append_left _ ?_
          rw [taken, turn_thread hthread]
          exact hhanded
        · refine List.mem_append_right _ (ih (Threads.thread_ran m hthread) hheld' hlater ?_)
          cases m with
          | frame bytes =>
              have hsame : (t.run L (.frame bytes) s.shared).2.1.writes = t.writes := by
                cases t <;> rfl
              rw [hsame]
              simpa [goings] using hgoings
          | goesOn tick written =>
              have hless := hfewer ⟨tick, written, rfl⟩
              have hcount : goings index (.resume index (.goesOn tick written) :: turns) =
                  goings index turns + 1 := by
                simp [goings]
              omega
      · have hkept : (System.turn L s a).2.threads[index]? = some t :=
          Threads.thread_kept hthread (not_exists.mp hmine)
        refine List.mem_append_right _ (ih hkept hheld hlater ?_)
        have hcount : goings index (a :: turns) = goings index turns := by
          cases a with
          | start call => simp [goings]
          | resume i m =>
              have hne : i ≠ index := fun h => hmine ⟨m, h ▸ rfl⟩
              cases m <;> simp [goings, hne]
        omega

theorem accepted (h : Accepts inbox q (taken (System.turn L) s a)) :
    q ∈ (System.turn L s a).2.shared.queues inbox := by
  obtain ⟨index, tick, written, submission, rfl, hthread, hput⟩ := h
  rw [turn_thread (show s.threads[index]? = some (.submitting submission) from hthread)]
  obtain ⟨kept, -, hqueues⟩ := run_queues (L := L) (r := s.shared) submission.val tick inbox
  rw [hput] at hqueues
  change q ∈ (submission.val.run L tick s.shared).2.2.queues inbox
  rw [hqueues]
  simp

end Run

-- In every run, a message that was queued is queued, or a reader holds it and has still to write it,
-- or it was handed to a reader, for a day at least and as long as no write fails that has it in its
-- batch; and a reader that holds it has handed it out when it has made its writes.
theorem kept_until_handed (L : RelayLibraries) (before after : List (Turn Call Meets))
    (a : Turn Call Meets) (inbox : Inbox) (q : Queued)
    (haccepted : Accepts inbox q
      (taken (System.turn L) (final (System.turn L) before System.start) a))
    (htimely : ∀ b ∈ after, Timely q b)
    (hwritten : ∀ x ∈ trace (System.turn L) after
      (final (System.turn L) (before ++ [a]) System.start), ¬Loses inbox q.envelope x) :
    Kept inbox q
        (trace (System.turn L) after (final (System.turn L) (before ++ [a]) System.start))
        (final (System.turn L) (before ++ a :: after) System.start) ∧
      ∀ index t, (final (System.turn L) (before ++ a :: after) System.start).threads[index]? =
          some t → t.Holds inbox q.envelope → ∀ rest, t.writes ≤ goings index rest →
        (∀ x ∈ trace (System.turn L) rest (final (System.turn L) (before ++ a :: after) System.start),
          ¬Loses inbox q.envelope x) →
        .handed inbox q.envelope ∈ events (trace (System.turn L) rest
          (final (System.turn L) (before ++ a :: after) System.start)) := by
  have hsplit : final (System.turn L) (before ++ a :: after) System.start =
      final (System.turn L) after (final (System.turn L) (before ++ [a]) System.start) := by
    rw [← final_append, List.append_assoc, List.singleton_append]
  refine ⟨?_, fun index t hthread hheld rest hgoings hlater =>
    handed_of_goings hthread hheld hlater hgoings⟩
  rw [hsplit]
  refine Kept.final (.queued ?_) htimely hwritten
  rw [final_append]
  exact accepted haccepted

namespace Reference

-- A call and the steps of its task.
def calling (index : Nat) (call : Call) (secs : UInt64) (steps : Nat) : List (Turn Call Meets) :=
  .start call :: List.replicate steps (.resume index (.goesOn (tick secs) true))

def requestBody (nonce : UInt8) : Bytes := posted .req requestWire device request 1001 nonce

-- A device asks twice; the second request is about to be queued.
def askedTwice : List (Turn Call Meets) :=
  calling 0 (.post .devices (posted .announce announceWire device announcement 1000 5)) 1000 2 ++
    calling 1 (.post .requests (requestBody 7)) 1001 4 ++
    calling 2 (.post .requests (requestBody 8)) 1001 3

def secondQueued : Turn Call Meets := .resume 2 (.goesOn (tick 1001) true)

def secondRequest : Queued :=
  ⟨⟨(tick 1001).id, .req, requestBody 8, (tick 1001).now.unix⟩, (tick 1001).now⟩

-- The owner's stream takes both, and the second cannot be sent.
def brokenStream : List (Turn Call Meets) :=
  calling 3 (.stream ⟨some (hexEncode request.owner), none⟩) 1002 3 ++
    [.resume 3 (.goesOn (tick 1002) false)]

-- The second is being sent.
def openStream : List (Turn Call Meets) :=
  calling 3 (.stream ⟨some (hexEncode request.owner), none⟩) 1002 3

theorem second_accepted : Accepts (.owner request.owner) secondRequest (taken (System.turn libraries)
    (final (System.turn libraries) askedTwice System.start) secondQueued) := by
  refine ⟨2, tick 1001, true, ⟨.queueing [.owner request.owner] .req (requestBody 8)
    (.replicate 16 0), rfl⟩, rfl, ?_⟩
  decide +kernel

theorem unsent_dropped :
    ¬∀ (L : RelayLibraries) (before after : List (Turn Call Meets)) (a : Turn Call Meets)
      (inbox : Inbox) (q : Queued),
      Accepts inbox q (taken (System.turn L) (final (System.turn L) before System.start) a) →
      (∀ b ∈ after, Timely q b) →
      (∀ t ∈ (final (System.turn L) (before ++ a :: after) System.start).threads,
        ¬t.Holds inbox q.envelope) →
      q ∈ (final (System.turn L) (before ++ a :: after) System.start).shared.queues inbox ∨
        .handed inbox q.envelope ∈ events (trace (System.turn L) after
          (final (System.turn L) (before ++ [a]) System.start)) := by
  intro h
  obtain ⟨hwritten, hgone⟩ : (∀ t ∈ (final (System.turn libraries)
        (askedTwice ++ secondQueued :: brokenStream) System.start).threads, t.unsent = none) ∧
      ¬(secondRequest ∈ (final (System.turn libraries) (askedTwice ++ secondQueued :: brokenStream)
          System.start).shared.queues (.owner request.owner) ∨
        .handed (.owner request.owner) secondRequest.envelope ∈ events (trace (System.turn libraries)
          brokenStream (final (System.turn libraries) (askedTwice ++ [secondQueued]) System.start))) := by
    decide +kernel
  have hlost := h libraries askedTwice brokenStream secondQueued (.owner request.owner) secondRequest
    second_accepted (by decide +kernel) ?_
  · exact hgone hlost
  · rintro t ht ⟨unsent, hunsent, -⟩
    rw [hwritten t ht] at hunsent
    cases hunsent

theorem nothing_lost {turns : List (Turn Call Meets)} {s : System} {inbox : Inbox} {e : Envelope}
    (h : ∀ index tick, .resume index (.goesOn tick false) ∉ turns) :
    ∀ x ∈ trace (System.turn libraries) turns s, ¬Loses inbox e x := by
  rintro x hx ⟨index, tick, t, hinput, -⟩
  obtain ⟨before, a, after, rfl, rfl⟩ := exists_of_mem_trace hx
  have ha : a = .resume index (.goesOn tick false) := hinput
  exact h index tick (ha ▸ List.mem_append_right _ List.mem_cons_self)

theorem second_handed :
    Kept (.owner request.owner) secondRequest
        (trace (System.turn libraries) openStream
          (final (System.turn libraries) (askedTwice ++ [secondQueued]) System.start))
        (final (System.turn libraries) (askedTwice ++ secondQueued :: openStream) System.start) ∧
      .handed (.owner request.owner) secondRequest.envelope ∈ events (trace (System.turn libraries)
        [.resume 3 (.goesOn (tick 1002) true)]
        (final (System.turn libraries) (askedTwice ++ secondQueued :: openStream) System.start)) := by
  obtain ⟨hkept, hhanded⟩ := kept_until_handed libraries askedTwice openStream secondQueued
    (.owner request.owner) secondRequest second_accepted (by decide +kernel)
    (nothing_lost fun index tick => by simp [openStream, calling])
  refine ⟨hkept, hhanded 3 (.streaming ⟨.owner request.owner, [], 0, .sending [secondRequest.envelope]⟩)
    (by decide +kernel) ⟨_, rfl, List.mem_singleton_self _⟩ _ (by decide +kernel)
    (nothing_lost fun index tick => by simp)⟩

end Reference

end Zbacs.Relay
