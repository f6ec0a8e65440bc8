import Zbacs.Relay.Inboxes
import Zbacs.Relay.Stream.Losses

namespace Zbacs.Relay

open Zbacs.Lib Zbacs.Proto

-- The first frame of a stream, as it is meant.
structure Subscribe where
  since : Option Bytes
  kinds : List Kind
  ts : UInt64
deriving DecidableEq

section Subscribe

variable (L : RelayLibraries) (codec : Codec Subscribe)

-- The registered device that signed the frame.
def subscriber (frame : Bytes) (now : Instant) (r : Zbacs.Relay) : Option (FixedBytes 16) :=
  match Signed.fromBytes L.toLibraries frame with
  | .error _ => none
  | .ok signed => match r.devices signed.kid with
    | none => none
    | some device => match signed.verify L.toLibraries .sub codec device.ed25519Pub now.unix with
      | .error _ => none
      | .ok _ => some signed.kid

-- A device reads its own inbox; whose devices read an owner's is for the owner to say.
def EntitledTo (enrolled : Bytes → FixedBytes 16 → Prop) : Inbox → FixedBytes 16 → Prop
  | .device k, kid => kid = k
  | .owner account, kid => enrolled account kid

-- In this step the first frame of a connection is received, and it is a subscription of a device
-- that is entitled to the inbox.
def Admits (enrolled : Bytes → FixedBytes 16 → Prop) (index : Nat) (inbox : Inbox) (x : Streamed) :
    Prop :=
  ∃ tick written c c' frame kid, x.input = .resume index (.goesOn tick written) ∧
    x.before.threads[index]? = some (.streaming c) ∧ x.after.threads[index]? = some (.streaming c') ∧
    c.received = 0 ∧ c'.received = 1 ∧ c.frames.head? = some frame ∧
    subscriber L codec frame tick.now x.before.shared = some kid ∧ EntitledTo enrolled inbox kid

end Subscribe

-- In this step a connection drains messages of its inbox, or sends one.
def Delivers (index : Nat) (c : Connection) (x : Streamed) : Prop :=
  ∃ tick written, x.input = .resume index (.goesOn tick written) ∧
    x.before.threads[index]? = some (.streaming c) ∧
    (c.pump = .waiting ∧ x.before.shared.queues c.target ≠ [] ∨
      ∃ envelope unsent, c.pump = .sending (envelope :: unsent))

-- A connection delivers nothing before its subscriber has been admitted.
def HolderFirst (L : RelayLibraries) (codec : Codec Subscribe)
    (enrolled : Bytes → FixedBytes 16 → Prop) (log : List Streamed) (x : Streamed) : Prop :=
  ∀ index c, Delivers index c x → ∃ y ∈ log, Admits L codec enrolled index c.target y

-- No loop finds a message in its inbox.
def NothingWaits (x : Streamed) : Prop :=
  ∀ index tick written c, x.input = .resume index (.goesOn tick written) →
    x.before.threads[index]? = some (.streaming c) → c.pump = .waiting →
    x.before.shared.queues c.target = []

section Connections

variable {L : RelayLibraries} {s : System} {p : Connection → Prop}

-- Where a connection comes from.
theorem run_streaming {t : Task} {m : Meets} {r : Zbacs.Relay} {c' : Connection}
    (h : (t.run L m r).2.1 = .streaming c') :
    (∃ target, c' = ⟨target, [], 0, .waiting⟩) ∨ ∃ c, t = .streaming c ∧
      ((∃ bytes, c' = { c with frames := c.frames ++ [bytes] }) ∨
        ∃ tick written, m = .goesOn tick written ∧ c' = (c.goesOn tick written r).2.1) := by
  cases t with
  | submitting | responding | refused | responded => cases m <;> cases h
  | reading query =>
      cases m with
      | frame bytes => cases h
      | goesOn tick written =>
          simp only [Task.run] at h
          cases hquery : query.target <;> rw [hquery] at h <;> cases h
  | upgrading query =>
      cases m with
      | frame bytes => cases h
      | goesOn tick written =>
          simp only [Task.run] at h
          cases hquery : query.streamTarget with
          | none =>
              rw [hquery] at h
              cases h
          | some target =>
              rw [hquery] at h
              exact .inl ⟨target, (Task.streaming.inj h).symm⟩
  | streaming c =>
      cases m with
      | frame bytes => exact .inr ⟨c, rfl, .inl ⟨bytes, (Task.streaming.inj h).symm⟩⟩
      | goesOn tick written =>
          exact .inr ⟨c, rfl, .inr ⟨tick, written, rfl, (Task.streaming.inj h).symm⟩⟩

-- What every connection begins with and keeps in the steps it takes.
theorem connections_final (ok : Streamed → Prop) (hbegin : ∀ target, p ⟨target, [], 0, .waiting⟩)
    (hframe : ∀ c bytes, p c → p { c with frames := c.frames ++ [bytes] })
    (hgoes : ∀ s (index : Nat) tick written c, s.threads[index]? = some (.streaming c) →
      ok (taken (System.turn L) s (.resume index (.goesOn tick written))) → p c →
      p (c.goesOn tick written s.shared).2.1)
    (turns : List (Turn Call Meets)) (hok : ∀ x ∈ trace (System.turn L) turns System.start, ok x) :
    ∀ (index : Nat) (c : Connection),
      (final (System.turn L) turns System.start).threads[index]? = some (.streaming c) → p c := by
  refine @trace_induct_along _ _ _ (System.turn L) (fun _ => ok) (fun _ s =>
    ∀ (index : Nat) c, s.threads[index]? = some (Task.streaming c) → p c) _ ?_ ?_ turns ?_
  · intro index c hthread
    simp [System.start] at hthread
  · intro log s a h hok index c hthread
    obtain hsame | ⟨call, -, hnew⟩ | ⟨m, t, rfl, hi, hmine⟩ := Threads.thread_cases hthread
    · exact h index c hsame
    · cases call <;> cases hnew
    · rcases run_streaming hmine.symm with ⟨target, rfl⟩ | ⟨c', rfl, ⟨bytes, rfl⟩ |
        ⟨tick, written, rfl, rfl⟩⟩
      · exact hbegin target
      · exact hframe c' bytes (h index c' hi)
      · exact hgoes s index tick written c' hi hok (h index c' hi)
  · rintro pre x post hlog
    exact hok x (hlog ▸ List.mem_append_right _ List.mem_cons_self)

-- The loop receives nothing.
theorem goesOn_received (c : Connection) (tick : Tick) (written : Bool) (r : Zbacs.Relay) :
    (c.goesOn tick written r).2.1.received = c.received := by
  unfold Connection.goesOn
  split
  · rfl
  · rfl
  · split <;> rfl
  · rfl

theorem not_admits {codec : Codec Subscribe} {enrolled : Bytes → FixedBytes 16 → Prop} {index : Nat}
    {inbox : Inbox} {turns : List (Turn Call Meets)} {y : Streamed}
    (hy : y ∈ trace (System.turn L) turns System.start) :
    ¬Admits L codec enrolled index inbox y := by
  rintro ⟨tick, written, c, c', frame, kid, -, -, hafter, -, hreceived, -⟩
  obtain ⟨before, a, after, -, rfl⟩ := exists_of_mem_trace hy
  have hunread := connections_final (L := L) (p := fun c => c.received = 0) (fun _ => True)
    (fun _ => rfl) (fun _ _ h => h)
    (fun s _ tick written c _ _ h => (goesOn_received c tick written s.shared).trans h)
    (before ++ [a]) fun _ _ => trivial
  rw [final_append] at hunread
  exact absurd (hreceived.symm.trans (hunread index c' hafter)) Nat.one_ne_zero

-- There is nothing that it still has to send.
def Connection.Idle (c : Connection) : Prop := ∀ envelope unsent, c.pump ≠ .sending (envelope :: unsent)

theorem goesOn_idle {c : Connection} {r : Zbacs.Relay} (h : c.Idle) (tick : Tick) (written : Bool)
    (hempty : c.pump = .waiting → r.queues c.target = []) : (c.goesOn tick written r).2.1.Idle := by
  obtain ⟨target, frames, received, pump⟩ := c
  cases pump with
  | waiting =>
      have hnone : (r.drain target tick.now).1 = [] := by
        rw [drain_live, hempty rfl]
        rfl
      intro envelope unsent hpump
      exact List.cons_ne_nil _ _ ((Pump.sending.inj hpump).symm.trans hnone)
  | sending unsent =>
      cases unsent with
      | nil => cases written <;> exact fun _ _ hpump => nomatch hpump
      | cons envelope unsent => exact absurd rfl (h envelope unsent)
  | closed => exact fun _ _ hpump => nomatch hpump

end Connections

-- In every run, no connection drains or sends a message before its subscriber has been admitted,
-- exactly when no connection's loop ever finds a message in its inbox.
theorem holder_first_iff (L : RelayLibraries) (codec : Codec Subscribe)
    (enrolled : Bytes → FixedBytes 16 → Prop) (turns : List (Turn Call Meets)) :
    Along (HolderFirst L codec enrolled) (trace (System.turn L) turns System.start) ↔
      ∀ x ∈ trace (System.turn L) turns System.start, NothingWaits x := by
  constructor
  · intro halong x hx index tick written c hinput hthread hpump
    by_contra hwaits
    obtain ⟨pre, post, hlog⟩ := List.append_of_mem hx
    obtain ⟨y, hy, hadmits⟩ := halong pre x post hlog index c
      ⟨tick, written, hinput, hthread, .inl ⟨hpump, hwaits⟩⟩
    exact not_admits (hlog ▸ List.mem_append_left _ hy) hadmits
  · rintro hnothing pre x post hlog index c ⟨tick, written, hinput, hthread, hdelivers⟩
    have hx : x ∈ trace (System.turn L) turns System.start :=
      hlog ▸ List.mem_append_right _ List.mem_cons_self
    rcases hdelivers with ⟨hpump, hwaits⟩ | ⟨envelope, unsent, hpump⟩
    · exact absurd (hnothing x hx index tick written c hinput hthread hpump) hwaits
    · obtain ⟨before, a, after, rfl, rfl⟩ := exists_of_mem_trace hx
      have hbefore : ∀ y ∈ trace (System.turn L) before System.start, NothingWaits y := by
        intro y hy
        rw [trace_append] at hnothing
        exact hnothing y (List.mem_append_left _ hy)
      have hidle := connections_final (L := L) (p := Connection.Idle) NothingWaits
        (fun _ _ _ hpump => nomatch hpump) (fun _ _ h => h)
        (fun s i tick written c hi hok h => goesOn_idle h tick written fun hpump =>
          hok i tick written c rfl hi hpump) before hbefore
      exact absurd hpump (hidle index c hthread envelope unsent)

namespace Reference

-- Somebody opens a stream for an owner to whom requests have been made, and sends no frame.
def strangerOpens : List (Turn Call Meets) :=
  askedTwice ++ secondQueued :: calling 3 (.stream ⟨some (hexEncode request.owner), none⟩) 1002 1

theorem stranger_drains : ¬∃ (codec : Codec Subscribe) (enrolled : Bytes → FixedBytes 16 → Prop),
    Along (HolderFirst libraries codec enrolled) (trace (System.turn libraries)
      (strangerOpens ++ [.resume 3 (.goesOn (tick 1002) true)]) System.start) := by
  rintro ⟨codec, enrolled, halong⟩
  have hconnection : (final (System.turn libraries) strangerOpens System.start).threads[3]? =
      some (.streaming ⟨.owner request.owner, [], 0, .waiting⟩) := by
    decide +kernel
  have hqueued : (final (System.turn libraries) strangerOpens System.start).shared.queues
      (.owner request.owner) ≠ [] := by
    decide +kernel
  generalize strangerOpens = turns at halong hconnection hqueued
  rw [trace_append, trace] at halong
  obtain ⟨y, hy, hadmits⟩ := halong _ _ _ rfl 3 _
    ⟨tick 1002, true, rfl, hconnection, .inl ⟨rfl, hqueued⟩⟩
  exact not_admits hy hadmits

end Reference

end Zbacs.Relay
