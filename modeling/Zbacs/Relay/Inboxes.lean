import Mathlib.Data.List.TakeWhile
import Zbacs.Lib.Trace
import Zbacs.Relay.State

namespace Zbacs.Relay

open Zbacs.Lib Zbacs.Proto

-- A call on one of the queues.
inductive InboxCall where
  | enqueue (inbox : Inbox) (kind : Kind) (body : Bytes) (id : FixedBytes 16) (now : Instant)
  | drain (inbox : Inbox) (now : Instant)
deriving DecidableEq

namespace InboxCall

def inbox : InboxCall → Inbox
  | enqueue inbox _ _ _ _ | drain inbox _ => inbox

def now : InboxCall → Instant
  | enqueue _ _ _ _ now | drain _ now => now

def run (r : Zbacs.Relay) : InboxCall → List Envelope × Zbacs.Relay
  | enqueue inbox kind body id now => ([], r.enqueue inbox kind body id now)
  | drain inbox now => r.drain inbox now

-- What a call queues.
def queues : InboxCall → List Queued
  | enqueue _ kind body id now => [⟨⟨id, kind, body, now.unix⟩, now⟩]
  | drain _ _ => []

end InboxCall

abbrev InboxStep := Taken Zbacs.Relay InboxCall (List Envelope)

def expired (now : Instant) (q : Queued) : Bool := decide (queueTtl < now.durationSince q.queuedAt)

def live (now : Instant) (queue : List Queued) : List Queued := queue.filter fun q => !expired now q

-- The calls on one inbox, what they queued in it and what they handed out of it.
def on (inbox : Inbox) (log : List InboxStep) : List InboxStep :=
  log.filter fun x => x.input.inbox = inbox

def queuedIn (inbox : Inbox) (log : List InboxStep) : List Queued :=
  (on inbox log).flatMap fun x => x.input.queues

def drainedFrom (inbox : Inbox) (log : List InboxStep) : List Envelope :=
  (on inbox log).flatMap Taken.output

-- A message is dropped in a call on its inbox that finds it queued and too old.
def DroppedIn (inbox : Inbox) (log : List InboxStep) (q : Queued) : Prop :=
  ∃ x ∈ on inbox log, q ∈ x.before.queues inbox ∧ expired x.input.now q = true

-- What has become of the messages of an inbox that are in it no more: `true` for handed out.
structure Settled (inbox : Inbox) (log : List InboxStep) (r : Zbacs.Relay)
    (fates : List (Queued × Bool)) : Prop where
  queued : queuedIn inbox log = fates.map Prod.fst ++ r.queues inbox
  drained : drainedFrom inbox log = (fates.filter Prod.snd).map fun p => p.1.envelope
  dropped : ∀ q, (q, false) ∈ fates → DroppedIn inbox log q

section Calls

variable {inbox : Inbox} {log : List InboxStep} {r : Zbacs.Relay} {call : InboxCall}
  {fates : List (Queued × Bool)}

theorem queues_of_ne (h : call.inbox ≠ inbox) : (call.run r).2.queues inbox = r.queues inbox := by
  cases call with
  | enqueue | drain => exact Function.update_of_ne (Ne.symm h) _ _

theorem drain_live (now : Instant) :
    (r.drain inbox now).1 = (live now (r.queues inbox)).map Queued.envelope := by
  have hpred : (fun q : Queued => decide (now.durationSince q.queuedAt ≤ queueTtl)) =
      fun q => !expired now q := by
    funext q
    simp only [expired, ← decide_not, Nat.not_lt]
  rw [live, ← hpred]
  rfl

-- A queue with what its messages are found to be.
theorem map_fst_marks (queue : List Queued) (mark : Queued → Bool) :
    (queue.map fun q => (q, mark q)).map Prod.fst = queue := by
  rw [List.map_map]
  exact List.map_id queue

theorem filter_marks (queue : List Queued) (mark : Queued → Bool) :
    (queue.map fun q => (q, mark q)).filter Prod.snd = (queue.filter mark).map fun q => (q, mark q) := by
  rw [List.filter_map]
  rfl

theorem on_concat (x : InboxStep) :
    on inbox (log ++ [x]) = on inbox log ++ if x.input.inbox = inbox then [x] else [] := by
  by_cases h : x.input.inbox = inbox <;> simp [on, h]

theorem DroppedIn.concat {q : Queued} (h : DroppedIn inbox log q) (x : InboxStep) :
    DroppedIn inbox (log ++ [x]) q := by
  obtain ⟨y, hy, hdropped⟩ := h
  exact ⟨y, by rw [on_concat]; exact List.mem_append_left _ hy, hdropped⟩

-- A call on another inbox.
theorem Settled.other (h : Settled inbox log r fates) (hne : call.inbox ≠ inbox) :
    Settled inbox (log ++ [taken InboxCall.run r call]) (call.run r).2 fates := by
  have hon : on inbox (log ++ [taken InboxCall.run r call]) = on inbox log := by
    rw [on_concat, if_neg (show (taken InboxCall.run r call).input.inbox ≠ inbox from hne),
      List.append_nil]
  refine ⟨?_, ?_, fun q hq => (h.dropped q hq).concat _⟩
  · rw [queuedIn, hon, queues_of_ne hne]
    exact h.queued
  · rw [drainedFrom, hon]
    exact h.drained

theorem queuedIn_concat (h : call.inbox = inbox) :
    queuedIn inbox (log ++ [taken InboxCall.run r call]) = queuedIn inbox log ++ call.queues := by
  have hmine : (taken InboxCall.run r call).input.inbox = inbox := h
  rw [queuedIn, on_concat, if_pos hmine, List.flatMap_append, List.flatMap_singleton]
  rfl

theorem drainedFrom_concat (h : call.inbox = inbox) :
    drainedFrom inbox (log ++ [taken InboxCall.run r call]) =
      drainedFrom inbox log ++ (call.run r).1 := by
  have hmine : (taken InboxCall.run r call).input.inbox = inbox := h
  rw [drainedFrom, on_concat, if_pos hmine, List.flatMap_append, List.flatMap_singleton]
  rfl

-- What a call on the inbox drops.
theorem dropped_here (h : call.inbox = inbox) {q : Queued} (hq : q ∈ r.queues inbox)
    (hold : expired call.now q = true) :
    DroppedIn inbox (log ++ [taken InboxCall.run r call]) q := by
  have hmine : (taken InboxCall.run r call).input.inbox = inbox := h
  refine ⟨taken InboxCall.run r call, ?_, hq, hold⟩
  rw [on_concat, if_pos hmine]
  exact List.mem_append_right _ (List.mem_singleton_self _)

-- A message is put at the end; what is at the front and too old goes.
theorem Settled.enqueue (h : Settled inbox log r fates) (kind : Kind) (body : Bytes)
    (id : FixedBytes 16) (now : Instant) :
    Settled inbox (log ++ [taken InboxCall.run r (.enqueue inbox kind body id now)])
      (r.enqueue inbox kind body id now)
      (fates ++ ((r.queues inbox).takeWhile (expired now)).map fun q => (q, false)) := by
  have hqueue : (r.enqueue inbox kind body id now).queues inbox =
      (r.queues inbox).dropWhile (expired now) ++ [⟨⟨id, kind, body, now.unix⟩, now⟩] :=
    Function.update_self ..
  have hmine : InboxCall.inbox (.enqueue inbox kind body id now) = inbox := rfl
  refine ⟨?_, ?_, fun q hq => ?_⟩
  · rw [queuedIn_concat hmine, h.queued, hqueue, List.map_append, map_fst_marks, InboxCall.queues]
    have hsplit := List.takeWhile_append_dropWhile (p := expired now) (l := r.queues inbox)
    conv_lhs => rw [← hsplit]
    simp only [List.append_assoc]
  · rw [drainedFrom_concat hmine, h.drained, List.filter_append]
    have hnone : (((r.queues inbox).takeWhile (expired now)).map fun q => (q, false)).filter Prod.snd =
        [] := by
      simp [List.filter_map]
    rw [hnone, List.append_nil]
    exact List.append_nil _
  · rcases List.mem_append.mp hq with hbefore | hnow
    · exact (h.dropped q hbefore).concat _
    · obtain ⟨q', hmem, heq⟩ := List.mem_map.mp hnow
      obtain rfl : q' = q := congrArg Prod.fst heq
      exact dropped_here hmine ((List.takeWhile_sublist _).subset hmem) (List.mem_takeWhile_imp hmem)

-- Everything is taken; what is too old is not handed out.
theorem Settled.drain (h : Settled inbox log r fates) (now : Instant) :
    Settled inbox (log ++ [taken InboxCall.run r (.drain inbox now)]) (r.drain inbox now).2
      (fates ++ (r.queues inbox).map fun q => (q, !expired now q)) := by
  have hqueue : (r.drain inbox now).2.queues inbox = [] := Function.update_self ..
  have hmine : InboxCall.inbox (.drain inbox now) = inbox := rfl
  refine ⟨?_, ?_, fun q hq => ?_⟩
  · rw [queuedIn_concat hmine, h.queued, hqueue, List.map_append, map_fst_marks, List.append_nil]
    exact List.append_nil _
  · rw [drainedFrom_concat hmine, h.drained, List.filter_append, List.map_append, filter_marks,
      List.map_map]
    exact congrArg _ (drain_live now)
  · rcases List.mem_append.mp hq with hbefore | hnow
    · exact (h.dropped q hbefore).concat _
    · obtain ⟨q', hmem, heq⟩ := List.mem_map.mp hnow
      obtain rfl : q' = q := congrArg Prod.fst heq
      have hold : expired now q' = true := by simpa using congrArg Prod.snd heq
      exact dropped_here hmine hmem hold

theorem settled_final (inbox : Inbox) (calls : List InboxCall) :
    ∃ fates, Settled inbox (trace InboxCall.run calls Zbacs.Relay.new)
      (final InboxCall.run calls Zbacs.Relay.new) fates := by
  refine @trace_induct _ _ _ InboxCall.run (fun log r => ∃ fates, Settled inbox log r fates) _
    ⟨[], rfl, rfl, fun q hq => absurd hq List.not_mem_nil⟩ ?_ calls
  rintro log r call ⟨fates, h⟩
  by_cases hmine : call.inbox = inbox
  · subst hmine
    cases call with
    | enqueue inbox kind body id now => exact ⟨_, h.enqueue kind body id now⟩
    | drain inbox now => exact ⟨_, h.drain now⟩
  · exact ⟨fates, h.other hmine⟩

end Calls

-- Every message that is queued is handed out once, or still waits, or was too old when it was
-- dropped; in the order they came.
theorem inbox_fifo (calls : List InboxCall) (inbox : Inbox) (now : Instant) :
    (∃ fates : List (Queued × Bool),
      queuedIn inbox (trace InboxCall.run calls Zbacs.Relay.new) = fates.map Prod.fst ∧
      drainedFrom inbox (trace InboxCall.run calls Zbacs.Relay.new) ++
          (live now ((final InboxCall.run calls Zbacs.Relay.new).queues inbox)).map Queued.envelope =
        (fates.filter Prod.snd).map (fun p => p.1.envelope) ∧
      ∀ q, (q, false) ∈ fates → DroppedIn inbox (trace InboxCall.run calls Zbacs.Relay.new) q ∨
        q ∈ (final InboxCall.run calls Zbacs.Relay.new).queues inbox ∧ expired now q = true) ∧
    (((queuedIn inbox (trace InboxCall.run calls Zbacs.Relay.new)).map (·.envelope.id)).Nodup →
      ((drainedFrom inbox (trace InboxCall.run calls Zbacs.Relay.new)).map Envelope.id).Nodup) ∧
    ∀ x ∈ trace InboxCall.run calls Zbacs.Relay.new, ∀ other ≠ x.input.inbox,
      x.after.queues other = x.before.queues other := by
  obtain ⟨fates, h⟩ := settled_final inbox calls
  refine ⟨⟨fates ++ ((final InboxCall.run calls Zbacs.Relay.new).queues inbox).map fun q =>
    (q, !expired now q), ?_, ?_, fun q hq => ?_⟩, fun hids => ?_, ?_⟩
  · rw [h.queued, List.map_append, map_fst_marks]
  · rw [h.drained, List.filter_append, filter_marks, List.map_append, List.map_map]
    rfl
  · rcases List.mem_append.mp hq with hbefore | hnow
    · exact .inl (h.dropped q hbefore)
    · obtain ⟨q', hmem, heq⟩ := List.mem_map.mp hnow
      obtain rfl : q' = q := congrArg Prod.fst heq
      exact .inr ⟨hmem, by simpa using congrArg Prod.snd heq⟩
  · -- what was handed out is part of what was queued
    have hpart : ((fates.filter Prod.snd).map fun p => p.1.envelope.id).Sublist
        (fates.map fun p => p.1.envelope.id) := List.filter_sublist.map _
    rw [h.queued, List.map_append, List.map_map] at hids
    rw [h.drained, List.map_map]
    exact (List.nodup_append.mp hids).1.sublist hpart
  · intro x hx other hother
    obtain ⟨before, call, after, -, rfl⟩ := exists_of_mem_trace hx
    exact queues_of_ne (Ne.symm hother)

end Zbacs.Relay
