import Mathlib.Data.List.Induction
import Zbacs.Relay.Courses

namespace Zbacs.Relay

open Zbacs.Lib Zbacs.Proto

-- A message is queued once in an inbox at most, however often it is submitted.

-- The inbox a handler is about to queue this message in.
def Handler.putOf (body : Bytes) (tick : Tick) (h : Handler) : Option Inbox :=
  (h.put tick).bind fun (inbox, q) => if q.envelope.body = body then some inbox else none

def putsOf (body : Bytes) (log : List Served) : List Inbox :=
  log.filterMap fun x => (stepOf x).bind fun (_, h, tick) => h.putOf body tick

-- It has been let in with this message.
def Handler.carries (body : Bytes) : Handler → Bool
  | .remembering _ _ body' | .noting _ _ body' | .routing _ body' | .lookingUp _ body'
  | .queueing _ _ body' _ => body' = body
  | _ => false

-- Where it is still going to queue it.
def Handler.ahead : Handler → List Inbox
  | .queueing targets _ _ _ => targets
  | _ => []

-- How often this message was let in.
def admissions (L : RelayLibraries) (body : Bytes) (log : List Served) : Nat :=
  ((passes log).map Passed.signed).countP fun signed =>
    some signed = (Signed.fromBytes L.toLibraries body).toOption

-- One handler at most has been let in with the message, and what it has queued it does not queue
-- again.
structure Single (L : RelayLibraries) (body : Bytes) (log : List Served) (threads : List Handler) :
    Prop where
  admitted : ∀ (i : Nat) (h : Handler), threads[i]? = some h → h.carries body = true →
    admissions L body log ≠ 0
  sole : ∀ (i j : Nat) (h h' : Handler), threads[i]? = some h → threads[j]? = some h' →
    h.carries body = true → h'.carries body = true → i = j
  unput : admissions L body log = 0 → putsOf body log = []
  early : ∀ (i : Nat) (h : Handler), threads[i]? = some h → h.carries body = true →
    h.early = true → putsOf body log = []
  ahead : ∀ (i : Nat) (h : Handler), threads[i]? = some h → h.carries body = true →
    (putsOf body log ++ h.ahead).Nodup
  nodup : (putsOf body log).Nodup

section Step

variable {L : RelayLibraries} {body : Bytes} {h : Handler} {tick : Tick} {r : Zbacs.Relay}

theorem putOf_carries {inbox : Inbox} (hput : h.putOf body tick = some inbox) : h.carries body = true := by
  cases h with
  | queueing targets kind body' id =>
      cases targets with
      | nil => cases hput
      | cons target targets =>
          simp only [Handler.putOf, Handler.put, Option.bind_some] at hput
          split_ifs at hput with hbody
          exact decide_eq_true hbody
  | arrived | announcing | remembering | noting | routing | lookingUp | replied | handed => cases hput

-- After its arrival a handler lets nothing pass, and keeps its message.
theorem run_carries (hin : ∀ arrival, h ≠ .arrived arrival) :
    (h.run L tick r).1 = [] ∧ ((h.run L tick r).2.1.carries body = true → h.carries body = true) := by
  cases h with
  | arrived arrival => exact absurd rfl (hin arrival)
  | queueing targets kind body' id =>
      cases targets with
      | nil => exact ⟨rfl, Bool.noConfusion⟩
      | cons => exact ⟨rfl, fun h => h⟩
  | routing grant body' =>
      obtain ⟨kid, -, hrun⟩ | ⟨why, -, hrun⟩ := @routing_cases L grant body' tick r
      · rw [hrun]
        exact ⟨rfl, id⟩
      · rw [hrun]
        exact ⟨rfl, Bool.noConfusion⟩
  | announcing | replied | handed => exact ⟨rfl, Bool.noConfusion⟩
  | remembering | noting | lookingUp => exact ⟨rfl, id⟩

-- A step of the handler that was let in: on to its inboxes, or through one of them.
theorem run_ahead (hcarries : h.carries body = true)
    (hdistinct : ∀ fid, (r.interested fid tick.now).1.Nodup) :
    (h.early = true ∧ h.putOf body tick = none ∧ (h.run L tick r).2.1.ahead.Nodup) ∨
      (h.early = false ∧ (h.run L tick r).2.1.early = false ∧
        h.ahead = (h.putOf body tick).toList ++ (h.run L tick r).2.1.ahead) := by
  cases h with
  | arrived | announcing | replied | handed => cases hcarries
  | remembering => exact .inl ⟨rfl, rfl, List.nodup_nil⟩
  | noting => exact .inl ⟨rfl, rfl, List.nodup_singleton _⟩
  | routing grant body' =>
      refine .inl ⟨rfl, rfl, ?_⟩
      obtain ⟨kid, -, hrun⟩ | ⟨why, -, hrun⟩ := @routing_cases L grant body' tick r
      · rw [hrun]
        exact List.nodup_singleton _
      · rw [hrun]
        exact List.nodup_nil
  | lookingUp revoke body' =>
      refine .inl ⟨rfl, rfl, (hdistinct revoke.fid).map fun kid kid' hsame => ?_⟩
      exact Inbox.device.inj hsame
  | queueing targets kind body' id =>
      right
      cases targets with
      | nil => exact ⟨rfl, rfl, rfl⟩
      | cons target targets =>
          have hput : (Handler.queueing (target :: targets) kind body' id).putOf body tick = some target := by
            simpa [Handler.putOf, Handler.put, Handler.carries] using hcarries
          exact ⟨rfl, rfl, by rw [hput]; rfl⟩

-- An arrival that is let in with the message.
theorem arrived_carries (arrival : Arrival)
    (hcarries : ((Handler.arrived arrival).run L tick r).2.1.carries body = true) :
    ∃ signed, Signed.fromBytes L.toLibraries body = .ok signed ∧
      ((Handler.arrived arrival).run L tick r).1 = [⟨signed, tick.now⟩] ∧
      ((Handler.arrived arrival).run L tick r).2.1.ahead.Nodup := by
  cases arrival with
  | inbox query =>
      simp only [Handler.run, receive] at hcarries
      cases hquery : query.target <;> rw [hquery] at hcarries <;> cases hcarries
  | post e body' =>
      have hwelcome := @arrived_welcome L r e body' tick
      generalize (Handler.arrived (.post e body')).run L tick r = out at hcarries hwelcome ⊢
      cases hwelcome with
      | unfit | mislabelled | limited | burnt => cases hcarries
      | @letIn signed h horigin hlabel hquota hfresh hnext =>
          have hbody := fromBytes_of_originOf horigin
          have hsame : body' = body ∧ h.ahead.Nodup := by
            cases e with
            | devices =>
                obtain ⟨a, -, rfl⟩ := Option.map_eq_some_iff.mp hnext
                cases hcarries
            | requests =>
                obtain ⟨request, -, rfl⟩ := Option.map_eq_some_iff.mp hnext
                unfold requested at hcarries ⊢
                split_ifs at hcarries ⊢
                · cases hcarries
                · cases hcarries
                · exact ⟨of_decide_eq_true hcarries, List.nodup_nil⟩
            | grants | revocations =>
                obtain ⟨message, -, rfl⟩ := Option.map_eq_some_iff.mp hnext
                exact ⟨of_decide_eq_true hcarries, List.nodup_nil⟩
            | versions =>
                obtain ⟨version, -, rfl⟩ := Option.map_eq_some_iff.mp hnext
                unfold versioned at hcarries ⊢
                split_ifs at hcarries ⊢
                · cases hcarries
                · cases hcarries
                · exact ⟨of_decide_eq_true hcarries, List.nodup_singleton _⟩
          obtain ⟨rfl, hahead⟩ := hsame
          exact ⟨signed, hbody, rfl, hahead⟩

end Step

section Run

variable {L : RelayLibraries} {body : Bytes} {log : List Served} {s : Server} {x : Served} {index : Nat}
  {h h' : Handler} {tick : Tick} {threads : List Handler}

theorem putsOf_concat : putsOf body (log ++ [x]) =
    putsOf body log ++ ((stepOf x).bind fun (_, h, tick) => h.putOf body tick).toList := by
  rw [putsOf, List.filterMap_append, putsOf]
  cases hput : (stepOf x).bind fun (_, h, tick) => h.putOf body tick <;> simp [hput]

theorem admissions_concat : admissions L body (log ++ [x]) =
    admissions L body log + (x.output.map Passed.signed).countP fun signed =>
      some signed = (Signed.fromBytes L.toLibraries body).toOption := by
  rw [admissions, passes_concat, List.map_append, List.countP_append, admissions]

-- A step that neither lets in nor queues the message, and leaves nobody new with it.
theorem Single.other (hs : Single L body log threads) {threads' : List Handler}
    (hputs : putsOf body (log ++ [x]) = putsOf body log)
    (hthreads : ∀ (i : Nat) (h : Handler), threads'[i]? = some h → h.carries body = true →
      threads[i]? = some h) : Single L body (log ++ [x]) threads' := by
  have hmore : admissions L body log ≤ admissions L body (log ++ [x]) := by
    rw [admissions_concat]
    exact Nat.le_add_right _ _
  refine ⟨fun i h hi hc => ?_, fun i j h h' hi hj hc hc' => ?_, fun hnone => ?_, fun i h hi hc => ?_,
    fun i h hi hc => ?_, ?_⟩
  · have hadmitted := hs.admitted i h (hthreads i h hi hc) hc
    omega
  · exact hs.sole i j h h' (hthreads i h hi hc) (hthreads j h' hj hc') hc hc'
  · rw [hputs]
    exact hs.unput (by omega)
  · rw [hputs]
    exact hs.early i h (hthreads i h hi hc) hc
  · rw [hputs]
    exact hs.ahead i h (hthreads i h hi hc) hc
  · rw [hputs]
    exact hs.nodup

-- The message is let in.
theorem Single.letIn (hs : Single L body log threads) (honce : admissions L body (log ++ [x]) ≤ 1)
    (hadmits : admissions L body (log ++ [x]) = admissions L body log + 1)
    (hputs : putsOf body (log ++ [x]) = putsOf body log) (hahead : h'.ahead.Nodup) :
    Single L body (log ++ [x]) (threads.set index h') := by
  have hnobody : ∀ (i : Nat) (h : Handler), threads[i]? = some h → h.carries body = true → False :=
    fun i h hi hc => hs.admitted i h hi hc (by omega)
  have hnone : putsOf body (log ++ [x]) = [] := hputs.trans (hs.unput (by omega))
  have hmine : ∀ (i : Nat) (h : Handler), (threads.set index h')[i]? = some h →
      h.carries body = true → index = i ∧ h' = h := by
    intro i h hi hc
    rw [List.getElem?_set] at hi
    split_ifs at hi with heq hlt
    · exact ⟨heq, Option.some.inj hi⟩
    · exact (hnobody i h hi hc).elim
  refine ⟨fun i h _ _ => by omega, fun i j h h'' hi hj hc hc' => ?_, fun _ => hnone,
    fun _ _ _ _ _ => hnone, fun i h hi hc => ?_, ?_⟩
  · rw [← (hmine i h hi hc).1, ← (hmine j h'' hj hc').1]
  · rw [hnone, ← (hmine i h hi hc).2]
    exact hahead
  · rw [hnone]
    exact List.nodup_nil

-- The handler that was let in with it goes on.
theorem Single.goesOn (hs : Single L body log threads) (hthread : threads[index]? = some h)
    (hcarries : h.carries body = true)
    (hadmits : admissions L body (log ++ [x]) = admissions L body log)
    (hputs : putsOf body (log ++ [x]) = putsOf body log ++ (h.putOf body tick).toList)
    (hgoes : (h.early = true ∧ h.putOf body tick = none ∧ h'.ahead.Nodup) ∨
      (h.early = false ∧ h'.early = false ∧ h.ahead = (h.putOf body tick).toList ++ h'.ahead)) :
    Single L body (log ++ [x]) (threads.set index h') := by
  have hmine : ∀ (i : Nat) (k : Handler), (threads.set index h')[i]? = some k →
      k.carries body = true → index = i ∧ h' = k := by
    intro i k hi hc
    rw [List.getElem?_set] at hi
    split_ifs at hi with heq hlt
    · exact ⟨heq, Option.some.inj hi⟩
    · exact absurd (hs.sole index i h k hthread hi hcarries hc) heq
  have hadmitted := hs.admitted index h hthread hcarries
  have hfuture : (putsOf body (log ++ [x]) ++ h'.ahead).Nodup ∧
      (h'.early = true → putsOf body (log ++ [x]) = []) := by
    rw [hputs]
    rcases hgoes with ⟨hearly, hnothing, hdistinct⟩ | ⟨-, hlate, hsplit⟩
    · rw [hs.early index h hthread hcarries hearly, hnothing]
      exact ⟨hdistinct, fun _ => rfl⟩
    · have hahead := hs.ahead index h hthread hcarries
      rw [hsplit, ← List.append_assoc] at hahead
      refine ⟨hahead, fun hearly => ?_⟩
      rw [hlate] at hearly
      cases hearly
  refine ⟨fun _ _ _ _ => hadmits ▸ hadmitted, fun i j k k' hi hj hc hc' => ?_,
    fun hnone => absurd (hadmits ▸ hnone) hadmitted, fun i k hi hc hearly => ?_,
    fun i k hi hc => ?_, (List.nodup_append.mp hfuture.1).1⟩
  · rw [← (hmine i k hi hc).1, ← (hmine j k' hj hc').1]
  · rw [← (hmine i k hi hc).2] at hearly
    exact hfuture.2 hearly
  · rw [← (hmine i k hi hc).2]
    exact hfuture.1

theorem single_nil : Single L body [] [] := by
  have hnobody : ∀ (i : Nat) (h : Handler), ([] : List Handler)[i]? ≠ some h := by
    intro i h hi
    cases hi
  exact ⟨fun i h hi => absurd hi (hnobody i h), fun i _ h _ hi => absurd hi (hnobody i h), fun _ => rfl,
    fun i h hi => absurd hi (hnobody i h), fun i h hi => absurd hi (hnobody i h), List.nodup_nil⟩

-- A new handler carries nothing yet.
theorem Single.started (hs : Single L body log s.threads) (arrival : Arrival) :
    Single L body (log ++ [taken (Server.turn L) s (.start arrival)])
      (Server.turn L s (.start arrival)).2.threads := by
  refine hs.other (by rw [putsOf_concat]; exact List.append_nil _) fun i h hi hc => ?_
  obtain hsame | ⟨arrival', -, rfl⟩ | ⟨tick, handler, hturn, -⟩ := Threads.thread_cases hi
  · exact hsame
  · cases hc
  · cases hturn

-- Where a handler goes on without the message, those that carry it were there before.
theorem carries_of_set {threads : List Handler} {h' k : Handler} {i : Nat} (hnot : h'.carries body = false)
    (hi : (threads.set index h')[i]? = some k) (hc : k.carries body = true) : threads[i]? = some k := by
  rw [List.getElem?_set] at hi
  split_ifs at hi with heq hlt
  · cases hi
    rw [hnot] at hc
    cases hc
  · exact hi

theorem Single.resumed (hs : Single L body log s.threads) (hthread : s.threads[index]? = some h)
    (tick : Tick) (honce : admissions L body (log ++ [taken (Server.turn L) s (.resume index tick)]) ≤ 1)
    (hdistinct : ∀ fid now, (s.shared.interested fid now).1.Nodup) :
    Single L body (log ++ [taken (Server.turn L) s (.resume index tick)])
      (Server.turn L s (.resume index tick)).2.threads := by
  have hstep : stepOf (taken (Server.turn L) s (.resume index tick)) = some (index, h, tick) := by
    simp [stepOf, taken, hthread]
  have hturn : Server.turn L s (.resume index tick) = _ := Threads.turn_resume hthread
  have hputs := @putsOf_concat body log (taken (Server.turn L) s (.resume index tick))
  rw [hstep, Option.bind_some] at hputs
  dsimp only at hputs
  have houtput : (taken (Server.turn L) s (.resume index tick)).output = (h.run L tick s.shared).1 :=
    congrArg Prod.fst hturn
  have hadmits := @admissions_concat L body log (taken (Server.turn L) s (.resume index tick))
  rw [houtput] at hadmits
  rw [hturn]
  generalize taken (Server.turn L) s (.resume index tick) = x at *
  by_cases harrived : ∃ arrival, h = .arrived arrival
  · obtain ⟨arrival, rfl⟩ := harrived
    have hquiet : putsOf body (log ++ [x]) = putsOf body log := hputs.trans (List.append_nil _)
    cases hcarries : ((Handler.arrived arrival).run L tick s.shared).2.1.carries body with
    | false => exact hs.other hquiet fun i k => carries_of_set hcarries
    | true =>
        obtain ⟨signed, hbody, hpassed, hahead⟩ := arrived_carries arrival hcarries
        refine hs.letIn honce ?_ hquiet hahead
        rw [hadmits, hpassed, hbody]
        simp [Except.toOption]
  · obtain ⟨hnothing, hkept⟩ := @run_carries L body h tick s.shared (not_exists.mp harrived)
    rw [hnothing] at hadmits
    by_cases hcarries : h.carries body = true
    · exact hs.goesOn hthread hcarries hadmits hputs (run_ahead hcarries fun fid => hdistinct fid _)
    · have hput : h.putOf body tick = none :=
        Option.eq_none_iff_forall_not_mem.mpr fun inbox hput => hcarries (putOf_carries hput)
      refine hs.other ?_ fun i k => carries_of_set (Bool.eq_false_iff.mpr (mt hkept hcarries))
      rw [hputs, hput]
      exact List.append_nil _

theorem Single.turn (hs : Single L body log s.threads) (a : Turn Arrival Tick)
    (honce : admissions L body (log ++ [taken (Server.turn L) s a]) ≤ 1)
    (hdistinct : ∀ fid now, (s.shared.interested fid now).1.Nodup) :
    Single L body (log ++ [taken (Server.turn L) s a]) (Server.turn L s a).2.threads := by
  cases a with
  | start arrival => exact hs.started arrival
  | resume index tick =>
      cases hthread : s.threads[index]? with
      | none =>
          refine hs.other ?_ fun i h hi _ => ?_
          · simp [putsOf_concat, stepOf, taken, hthread]
          · simpa [Server.turn, Threads.turn, hthread] using hi
      | some h => exact hs.resumed hthread tick honce hdistinct

theorem admissions_le_one {turns : List (Turn Arrival Tick)} (hclock : Forward turns) (body : Bytes) :
    admissions L body (trace (Server.turn L) turns Server.start) ≤ 1 := by
  have hnodup := passes_nodup L hclock
  cases hbody : Signed.fromBytes L.toLibraries body with
  | error why => simp [admissions, hbody, Except.toOption]
  | ok signed =>
      have hcount := List.nodup_iff_count_le_one.mp hnodup signed
      rw [admissions, hbody]
      simpa [List.count, Except.toOption, beq_eq_decide] using hcount

-- In every run, a message is queued in an inbox once at most, whoever submits it and however often.
theorem putsOf_nodup {turns : List (Turn Arrival Tick)} (hclock : Forward turns) (body : Bytes) :
    (putsOf body (trace (Server.turn L) turns Server.start)).Nodup := by
  suffices hsingle : Single L body (trace (Server.turn L) turns Server.start)
      (final (Server.turn L) turns Server.start).threads from hsingle.nodup
  induction turns using List.reverseRecOn with
  | nil => exact single_nil
  | append_singleton turns a ih =>
      have hbefore : Forward turns := by
        rw [Forward, List.filterMap_append] at hclock
        exact (List.pairwise_append.mp hclock).1
      have honce := admissions_le_one (L := L) hclock body
      rw [trace_append, trace, trace] at honce ⊢
      rw [final_append]
      exact (ih hbefore).turn a honce fun fid now =>
        (interests_final (L := L) turns).nodup_interested fid now

end Run

end Zbacs.Relay
