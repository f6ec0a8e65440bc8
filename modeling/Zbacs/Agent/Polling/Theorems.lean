import Mathlib.Data.List.TakeWhile
import Zbacs.Agent.Polling
import Zbacs.Agent.Request.Theorems

namespace Zbacs.Agent

open Zbacs.Lib Zbacs.Core Zbacs.Proto Zbacs.Session

abbrev LoopStep := Taken Loops LoopTurn (List Handout)

section Look

variable {heeds : Proto.Envelope → Bool} {pre post : List Proto.Envelope} {e : Proto.Envelope}

-- The first message that is for the loop is looked at.
theorem mem_lookedAt (hpre : ∀ e' ∈ pre, heeds e' = false) (he : heeds e = true) :
    e ∈ lookedAt heeds (pre ++ e :: post) := by
  induction pre with
  | nil => simp [lookedAt, he]
  | cons e' pre ih =>
      have hrest := ih fun e'' hmem => hpre e'' (List.mem_cons_of_mem _ hmem)
      simp [lookedAt, hpre e' List.mem_cons_self, hrest]

-- If there is one for it, there is a first one.
theorem exists_first {envelopes : List Proto.Envelope} (hmem : e ∈ envelopes) (he : heeds e = true) :
    ∃ pre e' post, envelopes = pre ++ e' :: post ∧ (∀ e'' ∈ pre, heeds e'' = false) ∧ heeds e' = true := by
  induction envelopes with
  | nil => cases hmem
  | cons head rest ih =>
      by_cases hhead : heeds head = true
      · exact ⟨[], head, rest, rfl, by simp, hhead⟩
      · have hrest : e ∈ rest := by
          rcases List.mem_cons.mp hmem with rfl | hrest
          · exact absurd he hhead
          · exact hrest
        obtain ⟨pre, e', post, rfl, hpre, he'⟩ := ih hrest
        refine ⟨head :: pre, e', post, rfl, ?_, he'⟩
        intro e'' hmem'
        rcases List.mem_cons.mp hmem' with rfl | htail
        · exact Bool.eq_false_iff.mpr hhead
        · exact hpre e'' htail

end Look

section Round

variable {L : Libraries} {kid : FixedBytes 16} {loop : Loop} {round : LoopRound} {e : Proto.Envelope}
  {inbox : Option (List Proto.Envelope)}

def Loop.over : Loop → Bool
  | .asked _ | .guarded _ => true
  | _ => false

-- A loop is over after a round, or goes on heeding the same messages.
theorem next_cases : (loop.next L round inbox).over = true ∨
    (loop.next L round inbox).heeds L = loop.heeds L := by
  cases loop with
  | asking asking nonce nudged =>
      simp only [Loop.next]
      cases askLoop L asking nonce [round.poll inbox] nudged with
      | none => exact .inr rfl
      | some asked => exact .inl rfl
  | guarding g session confirmed =>
      simp only [Loop.next]
      split
      · exact .inl rfl
      · exact .inr rfl
  | asked | guarded => exact .inl rfl

-- A loop that reads a message for it is over.
theorem next_over {envelopes : List Proto.Envelope} (hreads : loop.reads round = true)
    (hmem : e ∈ envelopes) (he : loop.heeds L e = true) :
    (loop.next L round (some envelopes)).over = true := by
  cases loop with
  | asking asking nonce nudged =>
      simp only [Loop.reads, Bool.and_eq_true, Bool.not_eq_true', decide_eq_false_iff_not] at hreads
      simp only [Loop.heeds, decide_eq_true_eq] at he
      have hsettle : (envelopes.findSome? (settle L asking nonce (round.poll (some envelopes)))).isSome := by
        refine List.findSome?_isSome_iff.mpr ⟨e, hmem, ?_⟩
        exact Option.isSome_iff_ne_none.mpr (mt settle_eq_none.mp he)
      obtain ⟨asked, hasked⟩ := Option.isSome_iff_exists.mp hsettle
      have hround : askLoop L asking nonce [round.poll (some envelopes)] nudged ≠ none := by
        simp only [LoopRound.poll, hreads.1] at hasked
        simp [askLoop, LoopRound.poll, hreads, hasked]
      simp only [Loop.next]
      split
      · rfl
      · rename_i hnone
        exact absurd hnone hround
  | guarding g session confirmed =>
      simp only [Loop.reads, Bool.and_eq_true, Bool.not_eq_true', decide_eq_false_iff_not] at hreads
      obtain ⟨⟨hcancel, hexpiry⟩, hchain⟩ := hreads
      have hany : envelopes.any (isRevokeFor L · g.grantId) = true := List.any_eq_true.mpr ⟨e, hmem, he⟩
      have hended : (watchGrant L g.chain g.grantId g.expiry [round.poll (some envelopes)] session
          confirmed).ended.isSome = true := by
        simp only [watchGrant, LoopRound.poll, hcancel, hexpiry, Bool.false_eq_true, if_false,
          Option.getD_some, hany, if_true]
        cases g.chain with
        | true =>
            simp only [if_true]
            split
            · rfl
            · rfl
        | false => rfl
      simp only [Loop.next, hended, if_true]
      rfl
  | asked | guarded => cases he

theorem Loop.run_answered {r : Zbacs.Relay} (hreads : loop.reads round = true)
    (hfetch : round.fetch = .answered) : loop.run L kid round r =
      ([⟨(r.drain (.device kid) round.clock).1,
          lookedAt (loop.heeds L) (r.drain (.device kid) round.clock).1⟩],
        loop.next L round (some (r.drain (.device kid) round.clock).1),
        (r.drain (.device kid) round.clock).2) := by
  simp only [Loop.run, hreads, hfetch, Bool.not_true, Bool.false_eq_true, if_false]

-- All that one round of a loop can do.
inductive Polled (L : Libraries) (kid : FixedBytes 16) (loop : Loop) (round : LoopRound)
    (r : Zbacs.Relay) : List Handout → Loop → Zbacs.Relay → Prop where
  | kept (hkept : loop.reads round = false ∨ round.fetch = .unreachable) :
      Polled L kid loop round r [] (loop.next L round none) r
  | lost (hfetch : round.fetch = .lost) : Polled L kid loop round r [] (loop.next L round none)
      (r.drain (.device kid) round.clock).2
  | answered (hreads : loop.reads round = true) (hfetch : round.fetch = .answered) :
      Polled L kid loop round r
        [⟨(r.drain (.device kid) round.clock).1,
          lookedAt (loop.heeds L) (r.drain (.device kid) round.clock).1⟩]
        (loop.next L round (some (r.drain (.device kid) round.clock).1))
        (r.drain (.device kid) round.clock).2

theorem Loop.run_polled (L : Libraries) (kid : FixedBytes 16) (loop : Loop) (round : LoopRound)
    (r : Zbacs.Relay) : Polled L kid loop round r (loop.run L kid round r).1 (loop.run L kid round r).2.1
      (loop.run L kid round r).2.2 := by
  by_cases hreads : loop.reads round = true
  · cases hfetch : round.fetch with
    | unreachable =>
        simp only [Loop.run, hreads, hfetch, Bool.not_true, Bool.false_eq_true, if_false]
        exact .kept (.inr hfetch)
    | lost =>
        simp only [Loop.run, hreads, hfetch, Bool.not_true, Bool.false_eq_true, if_false]
        exact .lost hfetch
    | answered =>
        rw [Loop.run_answered hreads hfetch]
        exact .answered hreads hfetch
  · have hnot : loop.reads round = false := Bool.eq_false_iff.mpr hreads
    simp only [Loop.run, hnot, Bool.not_false, if_true]
    exact .kept (.inl hnot)

end Round

-- The relay hands this round whatever still waits in the device's inbox. None of it is for another
-- loop.
def Clear (L : Libraries) (kid : FixedBytes 16) (x : LoopStep) : Prop :=
  ∀ index round loop, x.input = .loop (.resume index round) → x.before.threads[index]? = some loop →
    loop.reads round = true → round.fetch = .answered →
    ∀ other loop', other ≠ index → x.before.threads[other]? = some loop' →
      ∀ e ∈ (x.before.shared.drain (.device kid) round.clock).1, loop'.heeds L e = false

-- Whatever is handed out in a step and is for a loop that runs is looked at by that loop, as long
-- as nothing before it in the same read has ended the loop.
def Reaches (L : Libraries) (x : LoopStep) : Prop :=
  ∀ read ∈ x.output, ∀ index loop, x.before.threads[index]? = some loop →
    ∀ pre e post, read.handed = pre ++ e :: post → (∀ e' ∈ pre, loop.heeds L e' = false) →
      loop.heeds L e = true → (∃ round, x.input = .loop (.resume index round)) ∧ e ∈ read.looked

-- A message leaves the relay without being handed to anybody: it is too old, or the response of a
-- read is lost.
def Drops (kid : FixedBytes 16) (q : Zbacs.Relay.Queued) (x : LoopStep) : Prop :=
  (∃ kind body id clock, x.input = .queue (.device kid) kind body id clock ∧
    Zbacs.Relay.queueTtl < Zbacs.Relay.Instant.durationSince clock q.queuedAt) ∨
  ∃ index round, x.input = .loop (.resume index round) ∧ (round.fetch = .lost ∨
    Zbacs.Relay.queueTtl < Zbacs.Relay.Instant.durationSince round.clock q.queuedAt)

section Steps

variable {L : Libraries} {kid : FixedBytes 16} {s : Loops} {a : LoopTurn} {index : Nat} {loop : Loop}
  {round : LoopRound} {q : Zbacs.Relay.Queued}

-- All that a turn can do.
inductive LoopsMoved (L : Libraries) (kid : FixedBytes 16) (s : Loops) :
    LoopTurn → List Handout → Loops → Prop where
  | queued (inbox : Zbacs.Relay.Inbox) (kind : Kind) (body : Bytes) (id : FixedBytes 16)
      (clock : Zbacs.Relay.Instant) : LoopsMoved L kid s (.queue inbox kind body id clock) []
        ⟨s.shared.enqueue inbox kind body id clock, s.threads⟩
  | stood {t : Turn LoopJob LoopRound} {threads : List Loop}
      (hkept : ∀ (i : Nat) (loop : Loop), s.threads[i]? = some loop → threads[i]? = some loop) :
      LoopsMoved L kid s (.loop t) [] ⟨s.shared, threads⟩
  | polled {i : Nat} {loop loop' : Loop} {round : LoopRound} {out : List Handout} {r : Zbacs.Relay}
      (hloop : s.threads[i]? = some loop) (hpolled : Polled L kid loop round s.shared out loop' r) :
      LoopsMoved L kid s (.loop (.resume i round)) out ⟨r, s.threads.set i loop'⟩

theorem loops_moved (L : Libraries) (kid : FixedBytes 16) (s : Loops) (a : LoopTurn) :
    LoopsMoved L kid s a (Loops.turn L kid s a).1 (Loops.turn L kid s a).2 := by
  cases a with
  | queue inbox kind body id clock => exact .queued inbox kind body id clock
  | loop t =>
      cases t with
      | start job =>
          refine .stood fun i loop hloop => ?_
          exact (List.getElem?_append_left (List.getElem?_eq_some_iff.mp hloop).1).trans hloop
      | resume i round =>
          cases hloop : s.threads[i]? with
          | none =>
              simp only [Loops.turn, Threads.turn, hloop]
              exact .stood fun i loop h => h
          | some loop =>
              have hturn := @Threads.turn_resume _ _ _ _ _ Loop.enter (Loop.run L kid) s i round loop hloop
              rw [Loops.turn, hturn]
              exact .polled hloop (loop.run_polled L kid round s.shared)

-- Only an answered read hands anything out.
theorem handed_out {read : Handout} (h : read ∈ (Loops.turn L kid s a).1) :
    ∃ index round loop, a = .loop (.resume index round) ∧ s.threads[index]? = some loop ∧
      loop.reads round = true ∧ round.fetch = .answered ∧
      read = ⟨(s.shared.drain (.device kid) round.clock).1,
        lookedAt (loop.heeds L) (s.shared.drain (.device kid) round.clock).1⟩ := by
  have hmoved := loops_moved L kid s a
  rcases hturn : Loops.turn L kid s a with ⟨out, s'⟩
  rw [hturn] at hmoved h
  cases hmoved with
  | queued | stood => cases h
  | polled hloop hpolled =>
      cases hpolled with
      | kept | lost => cases h
      | answered hreads hfetch =>
          exact ⟨_, _, _, rfl, hloop, hreads, hfetch, List.mem_singleton.mp h⟩

theorem answered_read (hloop : s.threads[index]? = some loop) (hreads : loop.reads round = true)
    (hfetch : round.fetch = .answered) :
    (⟨(s.shared.drain (.device kid) round.clock).1,
      lookedAt (loop.heeds L) (s.shared.drain (.device kid) round.clock).1⟩ : Handout) ∈
      (Loops.turn L kid s (.loop (.resume index round))).1 := by
  have hturn := @Threads.turn_resume _ _ _ _ _ Loop.enter (Loop.run L kid) s index round loop hloop
  rw [Loops.turn, hturn, Loop.run_answered hreads hfetch]
  exact List.mem_singleton_self _

theorem clear_of_reaches (h : Reaches L (taken (Loops.turn L kid) s a)) :
    Clear L kid (taken (Loops.turn L kid) s a) := by
  rintro index round loop ha hloop hreads hfetch other loop' hne hother e he
  obtain rfl : a = .loop (.resume index round) := ha
  by_contra hheeds
  obtain ⟨pre, e', post, hsplit, hpre, he'⟩ := exists_first he (by simpa using hheeds)
  obtain ⟨⟨round', hinput⟩, -⟩ := h _ (answered_read hloop hreads hfetch) other loop' hother pre e'
    post hsplit hpre he'
  cases hinput
  exact hne rfl

theorem reaches_of_clear (h : Clear L kid (taken (Loops.turn L kid) s a)) :
    Reaches L (taken (Loops.turn L kid) s a) := by
  intro read hread index loop hloop pre e post hsplit hpre he
  obtain ⟨i, round, reader, rfl, hreader, hreads, hfetch, rfl⟩ := handed_out hread
  have hdrain : (s.shared.drain (.device kid) round.clock).1 = pre ++ e :: post := hsplit
  have hmem : e ∈ (s.shared.drain (.device kid) round.clock).1 := by
    rw [hdrain]
    exact List.mem_append_right _ List.mem_cons_self
  by_cases hi : index = i
  · subst hi
    obtain rfl : reader = loop := Option.some.inj (hreader.symm.trans hloop)
    refine ⟨⟨round, rfl⟩, ?_⟩
    rw [hdrain]
    exact mem_lookedAt hpre he
  · have hnot := h i round reader rfl hreader hreads hfetch index loop hi hloop e hmem
    exact absurd he (Bool.eq_false_iff.mp hnot)

-- A message waits in the device's inbox for a loop.
def WaitsFor (L : Libraries) (kid : FixedBytes 16) (q : Zbacs.Relay.Queued) (index : Nat)
    (s : Loops) : Prop :=
  q ∈ s.shared.queues (.device kid) ∧
    ∃ loop, s.threads[index]? = some loop ∧ loop.heeds L q.envelope = true

def LoopOver (index : Nat) (s : Loops) : Prop :=
  ∃ loop, s.threads[index]? = some loop ∧ loop.over = true

theorem mem_queue_enqueue {inbox : Zbacs.Relay.Inbox} {kind : Kind} {body : Bytes} {id : FixedBytes 16}
    {clock : Zbacs.Relay.Instant} {r : Zbacs.Relay} (hq : q ∈ r.queues (.device kid))
    (hage : inbox = .device kid →
      Zbacs.Relay.Instant.durationSince clock q.queuedAt ≤ Zbacs.Relay.queueTtl) :
    q ∈ (r.enqueue inbox kind body id clock).queues (.device kid) := by
  by_cases hinbox : inbox = .device kid
  · subst hinbox
    simp only [Zbacs.Relay.enqueue, Function.update_self, List.mem_append]
    left
    rw [← List.takeWhile_append_dropWhile (p := fun q' : Zbacs.Relay.Queued =>
      decide (clock.durationSince q'.queuedAt > Zbacs.Relay.queueTtl)) (l := r.queues (.device kid))] at hq
    rcases List.mem_append.mp hq with hold | hkept
    · have hold := List.mem_takeWhile_imp hold
      simp only [decide_eq_true_eq] at hold
      exact absurd (hage rfl) (by omega)
    · exact hkept
  · simp only [Zbacs.Relay.enqueue, Function.update_of_ne (Ne.symm hinbox)]
    exact hq

theorem mem_drain {clock : Zbacs.Relay.Instant} {r : Zbacs.Relay} (hq : q ∈ r.queues (.device kid))
    (hage : Zbacs.Relay.Instant.durationSince clock q.queuedAt ≤ Zbacs.Relay.queueTtl) :
    q.envelope ∈ (r.drain (.device kid) clock).1 := by
  simp only [Zbacs.Relay.drain, List.mem_map, List.mem_filter]
  exact ⟨q, ⟨hq, by simpa using hage⟩, rfl⟩

theorem next_of_over (h : loop.over = true) {inbox : Option (List Proto.Envelope)} :
    (loop.next L round inbox).over = true := by
  cases loop with
  | asking | guarding => cases h
  | asked | guarded => rfl

-- A loop that is over stays over.
theorem loopOver_step (h : LoopOver index s) : LoopOver index (Loops.turn L kid s a).2 := by
  obtain ⟨loop, hloop, hover⟩ := h
  have hmoved := loops_moved L kid s a
  rcases hturn : Loops.turn L kid s a with ⟨out, s'⟩
  rw [hturn] at hmoved
  cases hmoved with
  | queued => exact ⟨loop, hloop, hover⟩
  | stood hkept => exact ⟨loop, hkept index loop hloop, hover⟩
  | @polled i reader loop' _ _ _ hreader hpolled =>
      by_cases hi : i = index
      · subst hi
        obtain rfl : reader = loop := Option.some.inj (hreader.symm.trans hloop)
        refine ⟨loop', List.getElem?_set_self (List.getElem?_eq_some_iff.mp hloop).1, ?_⟩
        cases hpolled with
        | kept | lost | answered => exact next_of_over hover
      · exact ⟨loop, (List.getElem?_set_ne hi).trans hloop, hover⟩

-- Where a queued message is after a round: still there, lost to everybody, or handed to this loop.
theorem polled_queue {loop' : Loop} {out : List Handout} {r r' : Zbacs.Relay}
    (h : Polled L kid loop round r out loop' r') (hq : q ∈ r.queues (.device kid)) :
    (q ∈ r'.queues (.device kid) ∧ loop' = loop.next L round none) ∨
    (round.fetch = .lost ∨
      Zbacs.Relay.queueTtl < Zbacs.Relay.Instant.durationSince round.clock q.queuedAt) ∨
    (loop.reads round = true ∧ round.fetch = .answered ∧
      q.envelope ∈ (r.drain (.device kid) round.clock).1 ∧
      loop' = loop.next L round (some (r.drain (.device kid) round.clock).1)) := by
  cases h with
  | kept => exact .inl ⟨hq, rfl⟩
  | lost hlost => exact .inr (.inl (.inl hlost))
  | answered hreads hfetch =>
      by_cases hold : Zbacs.Relay.queueTtl < Zbacs.Relay.Instant.durationSince round.clock q.queuedAt
      · exact .inr (.inl (.inr hold))
      · exact .inr (.inr ⟨hreads, hfetch, mem_drain hq (Nat.le_of_not_lt hold), rfl⟩)

-- A message that waits for a loop goes on waiting, or the loop is over, or nobody gets it.
theorem waits_step (h : WaitsFor L kid q index s)
    (hclear : Clear L kid (taken (Loops.turn L kid) s a)) :
    WaitsFor L kid q index (Loops.turn L kid s a).2 ∨ LoopOver index (Loops.turn L kid s a).2 ∨
      Drops kid q (taken (Loops.turn L kid) s a) := by
  obtain ⟨hq, loop, hloop, hheeds⟩ := h
  have hlt := (List.getElem?_eq_some_iff.mp hloop).1
  have hmoved := loops_moved L kid s a
  rcases hturn : Loops.turn L kid s a with ⟨out, s'⟩
  rw [hturn] at hmoved
  cases hmoved with
  | queued inbox kind body id clock =>
      by_cases hold : inbox = .device kid ∧
          Zbacs.Relay.queueTtl < Zbacs.Relay.Instant.durationSince clock q.queuedAt
      · obtain ⟨rfl, hold⟩ := hold
        exact .inr (.inr (.inl ⟨kind, body, id, clock, rfl, hold⟩))
      · have hage : inbox = .device kid →
            Zbacs.Relay.Instant.durationSince clock q.queuedAt ≤ Zbacs.Relay.queueTtl :=
          fun hinbox => Nat.le_of_not_lt fun hlt => hold ⟨hinbox, hlt⟩
        exact .inl ⟨mem_queue_enqueue hq hage, loop, hloop, hheeds⟩
  | stood hkept => exact .inl ⟨hq, loop, hkept index loop hloop, hheeds⟩
  | @polled i reader loop' round _ r hreader hpolled =>
      rcases polled_queue hpolled hq with ⟨hq', rfl⟩ | hgone | ⟨hreads, hfetch, hmem, rfl⟩
      · by_cases hi : i = index
        · subst hi
          obtain rfl : reader = loop := Option.some.inj (hreader.symm.trans hloop)
          rcases @next_cases L reader round none with hover | hsame
          · exact .inr (.inl ⟨_, List.getElem?_set_self hlt, hover⟩)
          · exact .inl ⟨hq', _, List.getElem?_set_self hlt, by rw [hsame]; exact hheeds⟩
        · exact .inl ⟨hq', loop, (List.getElem?_set_ne hi).trans hloop, hheeds⟩
      · exact .inr (.inr (.inr ⟨i, round, rfl, hgone⟩))
      · by_cases hi : index = i
        · subst hi
          obtain rfl : reader = loop := Option.some.inj (hreader.symm.trans hloop)
          exact .inr (.inl ⟨_, List.getElem?_set_self hlt, next_over hreads hmem hheeds⟩)
        · have hnot := hclear i round reader rfl hreader hreads hfetch index loop hi hloop q.envelope hmem
          exact absurd hheeds (Bool.eq_false_iff.mp hnot)

end Steps

end Zbacs.Agent
