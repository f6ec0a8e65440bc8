import Zbacs.Agent.Failover.Success

namespace Zbacs.Agent

open Zbacs.Lib Zbacs.Proto Zbacs.Relay

-- A submission stops at the first relay that answers it, and so does a read. Which one that is
-- depends on what is down at the time.

section

variable (L : RelayLibraries) (endpoint : Endpoint) (body : Bytes) (v : Visit)

-- A valid message where the call is made. Whether the relay knows the device, and has calls left
-- for it, is another matter.
structure Visit.Valid : Prop where
  proper : Proper L endpoint body
  sound : ¬Went (v.index L) (v.log L (.post endpoint body)) (Spoilt L endpoint body)

-- The device has no calls left there.
def Visit.Busy : Prop :=
  Went (v.index L) (v.log L (.post endpoint body)) (OutOfCalls L endpoint body)

-- The relay does not find that it knows nothing of the sender or, for a grant, of the request.
def Visit.Known : Prop :=
  ¬Went (v.index L) (v.log L (.post endpoint body)) (Unfitting L endpoint body .unknownDevice) ∧
    ¬Went (v.index L) (v.log L (.post endpoint body)) (Unroutable body)

-- The first relay that answers, apart from those where the device is out of calls, knows it.
def FirstKnows (all : List Visit) : Prop :=
  ∃ vs v ws, all = vs ++ v :: ws ∧
    (∀ w ∈ vs, ∀ ack, w.Hears L (.post endpoint body) ack → w.Busy L endpoint body) ∧
    (∃ ack, v.Hears L (.post endpoint body) ack) ∧ ¬v.Busy L endpoint body ∧ v.Known L endpoint body

end

instance {L : RelayLibraries} {endpoint : Endpoint} {body : Bytes} (v : Visit) :
    Decidable (v.Valid L endpoint body) :=
  decidable_of_iff (Proper L endpoint body ∧
    ¬Went (v.index L) (v.log L (.post endpoint body)) (Spoilt L endpoint body))
    ⟨fun ⟨h, h'⟩ => ⟨h, h'⟩, fun h => ⟨h.proper, h.sound⟩⟩

section Submission

variable {L : RelayLibraries} {endpoint : Endpoint} {body : Bytes} {fleet : Fleet} {v : Visit} {ack : Ack}
  {calls : List (Nat × Contact)}

-- A valid message is answered that its device is out of calls, or that it is taken, or that the
-- relay does not know who or what it is about.
theorem valid_answer (hvalid : v.Valid L endpoint body)
    (hhandler : v.handler L (.post endpoint body) = some (.replied ack)) :
    (v.Busy L endpoint body ∧ ack = Relay.refuse .rateLimited) ∨
    (¬v.Busy L endpoint body ∧ v.Known L endpoint body ∧ (ack.ok = true ∨ ack.error = some .replayed)) ∨
    (¬v.Busy L endpoint body ∧ ¬v.Known L endpoint body ∧ ∃ code, ack = Relay.refuse code ∧ code ≠ .replayed ∧
      retryable code = false) := by
  have hbusy : v.Busy L endpoint body → ack = Relay.refuse .rateLimited := fun hbusy =>
    answer_of_run (fun h tick r => busy_run hvalid.proper) hbusy hhandler
  have hunknown : Went (v.index L) (v.log L (.post endpoint body))
      (Unfitting L endpoint body .unknownDevice) → ack = Relay.refuse (endpoint.codeOf .unknownDevice) :=
    fun hwent => answer_of_run (fun h tick r => unfit_run) hwent hhandler
  have hlost : Went (v.index L) (v.log L (.post endpoint body)) (Unroutable body) →
      ack = Relay.refuse .notFound := fun hwent => answer_of_run (fun h tick r => unroutable_run) hwent hhandler
  obtain ⟨hforeign, hfinal⟩ := codeOf_final endpoint .unknownDevice
  have hcalls : ∀ code, ack = Relay.refuse code → retryable code = false → ¬v.Busy L endpoint body := by
    rintro code hack hcode h
    cases hack.symm.trans (hbusy h)
    cases hcode
  have hknown : ack.ok = true ∨ ack.error = some .replayed → v.Known L endpoint body := by
    refine fun hack => ⟨fun h => ?_, fun h => ?_⟩
    · rw [hunknown h] at hack
      rcases hack with hok | herror
      · cases hok
      · exact hforeign (Option.some.inj herror)
    · rw [hlost h] at hack
      rcases hack with hok | herror <;> contradiction
  have hanswered : Relay.Answered L endpoint body _ _ ack := handler_onCourse hhandler
  cases hanswered with
  | limited h => exact .inl ⟨h, rfl⟩
  | @unfit why h =>
      obtain rfl : why = .unknownDevice := by
        by_contra hwhy
        obtain ⟨x, hx, h, tick, hstep, harrived, horigin⟩ := h
        exact hvalid.sound ⟨x, hx, h, tick, hstep, harrived, why, horigin, hwhy⟩
      exact .inr (.inr ⟨hcalls _ rfl hfinal, fun hknown => hknown.1 h, _, rfl, hforeign, hfinal⟩)
  | mislabelled hbody hlabel =>
      rw [(hvalid.proper _ hbody).1] at hlabel
      cases hlabel
  | burnt => exact .inr (.inl ⟨hcalls _ rfl rfl, hknown (.inr rfl), .inr rfl⟩)
  | improper hbody hnext => cases (hvalid.proper _ hbody).2 _ hnext
  | unrouted _ _ h =>
      exact .inr (.inr ⟨hcalls _ rfl rfl, fun hknown => hknown.2 h, _, rfl, by decide, rfl⟩)
  | accepted _ _ _ id =>
      refine .inr (.inl ⟨fun h => ?_, hknown (.inl rfl), .inl rfl⟩)
      cases hbusy h

theorem settles_valid (hvalid : v.Valid L endpoint body) :
    (v.exchange L (.post endpoint body)).settles = false ↔
      ∀ ack, v.Hears L (.post endpoint body) ack → v.Busy L endpoint body := by
  simp only [Visit.exchange, Exchange.settles, Exchange.acknowledged, Exchange.refusedForGood,
    ← response_eq_ack]
  cases hresponse : v.response L (.post endpoint body) with
  | lost | garbled => simp
  | ack ack =>
      rcases valid_answer hvalid (response_eq_ack.mp hresponse).2 with
        ⟨hbusy, rfl⟩ | ⟨hfree, -, hack⟩ | ⟨hfree, -, code, rfl, hcode, hfinal⟩
      · simp [hbusy, Relay.refuse, retryable]
      · rcases hack with hok | herror
        · simp [hfree, hok]
        · simp [hfree, herror]
      · simp [hfree, Relay.refuse, hcode, hfinal]

theorem acknowledged_valid (hvalid : v.Valid L endpoint body) :
    (v.exchange L (.post endpoint body)).acknowledged = true ↔
      (∃ ack, v.Hears L (.post endpoint body) ack) ∧ ¬v.Busy L endpoint body ∧ v.Known L endpoint body := by
  rw [acknowledged_iff]
  constructor
  · rintro ⟨ack, hhears, hack⟩
    refine ⟨⟨ack, hhears⟩, ?_⟩
    rcases valid_answer hvalid hhears.2 with ⟨-, rfl⟩ | ⟨hfree, hknown, -⟩ | ⟨-, -, code, rfl, hcode, -⟩
    · rcases hack with hok | herror <;> contradiction
    · exact ⟨hfree, hknown⟩
    · rcases hack with hok | herror
      · cases hok
      · exact absurd (Option.some.inj herror) hcode
  · rintro ⟨⟨ack, hhears⟩, hfree, hknown⟩
    rcases valid_answer hvalid hhears.2 with ⟨hbusy, -⟩ | ⟨-, -, hack⟩ | ⟨-, hunknown, -⟩
    · exact absurd hbusy hfree
    · exact ⟨ack, hhears, hack⟩
    · exact absurd hknown hunknown

-- A valid message goes through exactly when the first relay that answers it, apart from those
-- where its device is out of calls, knows its sender and, for a grant, the request.
theorem submission_iff (hvalid : ∀ v ∈ visits (.post endpoint body) calls fleet, v.Valid L endpoint body) :
    (∃ delivery, (sendOver L endpoint body calls fleet).result = .ok delivery) ↔
      FirstKnows L endpoint body (visits (.post endpoint body) calls fleet) := by
  change (∃ delivery, (submit ((visits (.post endpoint body) calls fleet).map
    (Visit.exchange L (.post endpoint body)))).result = .ok delivery) ↔ _
  rw [submit_ok_iff, comesTo_map]
  constructor
  · rintro ⟨vs, v, ws, hall, hbefore, hack⟩
    rw [hall] at hvalid
    refine ⟨vs, v, ws, hall, fun w hw => ?_, ?_⟩
    · exact (settles_valid (hvalid w (List.mem_append_left _ hw))).mp (hbefore w hw)
    · exact (acknowledged_valid (hvalid v (by simp))).mp hack
  · rintro ⟨vs, v, ws, hall, hbefore, hv⟩
    rw [hall] at hvalid
    refine ⟨vs, v, ws, hall, fun w hw => ?_, ?_⟩
    · exact (settles_valid (hvalid w (List.mem_append_left _ hw))).mpr (hbefore w hw)
    · exact (acknowledged_valid (hvalid v (by simp))).mpr hv

end Submission

section

variable (L : RelayLibraries) (query : InboxQuery) (body : Bytes)

-- The handler of a read finds the message queued, and not for too long.
def Finds (h : Handler) (now : Instant) (r : Zbacs.Relay) : Prop :=
  h = .arrived (.inbox query) ∧ ∃ target, query.target = some target ∧
    ∃ q ∈ r.queues target, q.envelope.body = body ∧ now.durationSince q.queuedAt ≤ queueTtl

-- Something comes back of a read.
def Visit.Answers (v : Visit) : Prop :=
  v.contact.hearing ≠ .lost ∧ ∃ es, v.handler L (.inbox query) = some (.handed es)

-- The first relay that answers finds the message, and the answer gets back whole.
def FirstFinds (all : List Visit) : Prop :=
  ∃ vs v ws, all = vs ++ v :: ws ∧ (∀ w ∈ vs, ¬w.Answers L query) ∧ v.contact.reached = true ∧
    v.contact.hearing = .whole ∧ Went (v.index L) (v.log L (.inbox query)) (Finds query body)

end

section Reads

variable {L : RelayLibraries} {query : InboxQuery} {body : Bytes} {v : Visit} {s : Server} {index : Nat}
  {tick : Tick} {r : Zbacs.Relay} {es : List Envelope}

theorem mem_drained {target : Inbox} {now : Instant} :
    (∃ envelope ∈ (r.drain target now).1, envelope.body = body) ↔
      ∃ q ∈ r.queues target, q.envelope.body = body ∧ now.durationSince q.queuedAt ≤ queueTtl := by
  simp only [Zbacs.Relay.drain, List.mem_map, List.mem_filter, exists_exists_and_eq_and]
  constructor
  · rintro ⟨q, ⟨hmem, hyoung⟩, hbody⟩
    exact ⟨q, hmem, hbody, of_decide_eq_true hyoung⟩
  · rintro ⟨q, hmem, hbody, hyoung⟩
    exact ⟨q, ⟨hmem, decide_eq_true hyoung⟩, hbody⟩

-- What the handler of a read hands out.
theorem reader_run (h : ((Handler.arrived (.inbox query)).run L tick r).2.1 = .handed es) :
    (∃ envelope ∈ es, envelope.body = body) ↔
      Finds query body (.arrived (.inbox query)) tick.now r := by
  simp only [Handler.run, receive] at h
  cases htarget : query.target with
  | none =>
      rw [htarget] at h
      cases h
  | some target =>
      rw [htarget] at h
      cases h
      rw [mem_drained]
      simp [Finds, htarget]

theorem reader_hands (h : Finds query body (.arrived (.inbox query)) tick.now r) :
    ∃ es, ((Handler.arrived (.inbox query)).run L tick r).2.1 = .handed es := by
  obtain ⟨-, target, htarget, -⟩ := h
  simp only [Handler.run, receive, htarget]
  exact ⟨_, rfl⟩

-- The handler of a read waits for its turn, or has taken it.
theorem reader_final (hthread : s.threads[index]? = some (.arrived (.inbox query)))
    (turns : List (Turn Arrival Tick)) :
    (final (Server.turn L) turns s).threads[index]? = some (.arrived (.inbox query)) ∨
      ∃ x ∈ trace (Server.turn L) turns s, ∃ tick,
        stepOf x = some (index, .arrived (.inbox query), tick) ∧
        (final (Server.turn L) turns s).threads[index]? =
          some ((Handler.arrived (.inbox query)).run L tick x.before.shared).2.1 := by
  induction turns generalizing s with
  | nil => exact .inl hthread
  | cons a turns ih =>
      by_cases hmine : ∃ tick, a = .resume index tick
      · obtain ⟨tick, rfl⟩ := hmine
        have hnext := (turn_mine (L := L) hthread tick).2
        refine .inr ⟨_, List.mem_cons_self, tick, by simp [stepOf, taken, hthread], ?_⟩
        refine still_final hnext (fun tick' r' => ?_) turns
        simp only [Handler.run, receive]
        cases query.target <;> rfl
      · refine (ih (turn_others (L := L) hthread (not_exists.mp hmine)).2.2).imp id ?_
        rintro ⟨x, hx, hstep⟩
        exact ⟨x, List.mem_cons_of_mem _ hx, hstep⟩

theorem fetched_eq : v.fetched L query = .envelopes es ↔
    v.contact.hearing = .whole ∧ v.handler L (.inbox query) = some (.handed es) := by
  unfold Visit.fetched
  split <;> simp_all

theorem fetched_failed : v.fetched L query = .failed ↔ ¬v.Answers L query := by
  unfold Visit.fetched Visit.Answers
  cases hhearing : v.contact.hearing with
  | lost => simp
  | whole | garbled =>
      rcases v.handler L (.inbox query) with _ | h
      · simp
      · cases h <;> simp

-- What one call of a read brings.
theorem fetched_iff : (∃ es, v.fetched L query = .envelopes es ∧ ∃ envelope ∈ es, envelope.body = body) ↔
    v.contact.reached = true ∧ v.contact.hearing = .whole ∧
      Went (v.index L) (v.log L (.inbox query)) (Finds query body) := by
  simp only [fetched_eq]
  constructor
  · rintro ⟨es, ⟨hhearing, hhandler⟩, hmem⟩
    have hreached := v.reached_of_handler hhandler
    obtain ⟨s, hthread, hfinal, hlog⟩ := Visit.of_reached hreached
    refine ⟨hreached, hhearing, ?_⟩
    rw [hfinal] at hhandler
    rcases reader_final hthread v.contact.turns with hwaits | ⟨x, hx, tick, hstep, hread⟩
    · rw [hwaits] at hhandler
      cases hhandler
    · rw [hread] at hhandler
      rw [hlog]
      exact ⟨x, List.mem_cons_of_mem _ hx, _, tick, hstep,
        (reader_run (Option.some.inj hhandler)).mp hmem⟩
  · rintro ⟨hreached, hhearing, hwent⟩
    obtain ⟨h, tick, r, s', after, hfinds, hthread, hfinal⟩ := went_then hwent
    obtain rfl := hfinds.1
    obtain ⟨es, hhands⟩ := reader_hands (L := L) hfinds
    rw [hhands] at hthread
    refine ⟨es, ⟨hhearing, ?_⟩, (reader_run hhands).mpr hfinds⟩
    rw [Visit.handler, if_pos hreached, hfinal]
    exact still_final hthread (fun _ _ => rfl) after

-- The first relay that answers is the one that is read.
theorem fetchInbox_eq_ok {all : List Fetched} :
    fetchInbox all = .ok es ↔ all.find? (· ≠ .failed) = some (.envelopes es) := by
  induction all with
  | nil => simp [fetchInbox]
  | cons x rest ih => cases x <;> simp [fetchInbox, ih]

theorem read_iff {all : List Visit} :
    (∃ es, fetchInbox (all.map (Visit.fetched L query)) = .ok es ∧ ∃ envelope ∈ es, envelope.body = body) ↔
      FirstFinds L query body all := by
  simp only [fetchInbox_eq_ok, List.find?_map, Option.map_eq_some_iff, List.find?_eq_some_iff_append,
    Function.comp_apply, decide_eq_true_eq, Bool.not_eq_true', decide_eq_false_iff_not, not_not,
    ne_eq, fetched_failed]
  constructor
  · rintro ⟨es, ⟨v, ⟨-, vs, ws, hall, hbefore⟩, hfetched⟩, hmem⟩
    exact ⟨vs, v, ws, hall, hbefore, fetched_iff.mp ⟨es, hfetched, hmem⟩⟩
  · rintro ⟨vs, v, ws, hall, hbefore, hv⟩
    obtain ⟨es, hfetched, hmem⟩ := fetched_iff.mpr hv
    have hanswers : v.Answers L query := by
      by_contra hsilent
      rw [fetched_failed.mpr hsilent] at hfetched
      cases hfetched
    exact ⟨es, ⟨v, ⟨hanswers, vs, ws, hall, hbefore⟩, hfetched⟩, hmem⟩

-- Over several reads, whatever goes on between them.
theorem pollInbox_iff {perEndpoint : UInt32} {readings : List Reading} {fleet : Fleet} :
    (∃ es, .ok es ∈ pollInbox L query perEndpoint readings fleet ∧ ∃ envelope ∈ es, envelope.body = body) ↔
      ∃ all ∈ polled L query perEndpoint readings fleet, FirstFinds L query body all := by
  simp only [pollInbox_eq, List.mem_map, ← read_iff]
  constructor
  · rintro ⟨es, ⟨all, hall, hok⟩, hmem⟩
    exact ⟨all, hall, es, hok, hmem⟩
  · rintro ⟨all, hall, es, hok, hmem⟩
    exact ⟨es, ⟨all, hall, hok⟩, hmem⟩

end Reads

-- A valid message goes through exactly when the first relay that answers, apart from those where
-- its device is out of calls, knows its sender and, for a grant, the request. It is read later
-- exactly when at some read the first relay that answers is one where it is queued, and not for
-- too long, whatever other relays have.
theorem failover_iff (L : RelayLibraries) (perEndpoint : UInt32) (endpoints : List (Nat × (Nat → Contact)))
    (endpoint : Endpoint) (body : Bytes) (fleet : Fleet)
    (hvalid : ∀ v ∈ visits (.post endpoint body) (contacts perEndpoint endpoints) fleet,
      v.Valid L endpoint body) :
    ((∃ delivery, (submitTo L perEndpoint endpoints endpoint body fleet).result = .ok delivery) ↔
      FirstKnows L endpoint body (visits (.post endpoint body) (contacts perEndpoint endpoints) fleet)) ∧
    ∀ (query : InboxQuery) (readings : List Reading),
      (∃ es, .ok es ∈ pollInbox L query perEndpoint readings (fleet.after (.post endpoint body)
        (submitTo L perEndpoint endpoints endpoint body fleet).made) ∧
          ∃ envelope ∈ es, envelope.body = body) ↔
      ∃ all ∈ polled L query perEndpoint readings (fleet.after (.post endpoint body)
        (submitTo L perEndpoint endpoints endpoint body fleet).made), FirstFinds L query body all :=
  ⟨submission_iff hvalid, fun _ _ => pollInbox_iff⟩

-- Once a device has announced itself, its valid messages go through as long as an endpoint is up
-- that has been up since.
def SubmitsLater : Prop :=
  ∀ (L : RelayLibraries) (perEndpoint : UInt32) (announcers senders : List (Nat × (Nat → Contact)))
    (announcement : Bytes) (endpoint : Endpoint) (body : Bytes) (fleet : Fleet),
    announcers.map Prod.fst = senders.map Prod.fst →
    (∃ delivery, (submitTo L perEndpoint announcers .devices announcement fleet).result = .ok delivery) →
    (∀ v ∈ visits (.post endpoint body) (contacts perEndpoint senders)
        (fleet.after (.post .devices announcement)
          (submitTo L perEndpoint announcers .devices announcement fleet).made),
      v.Valid L endpoint body ∧ (v.contact.reached = true → v.response L (.post endpoint body) ≠ .lost)) →
    (∃ relay attempt attempt', (relay, attempt) ∈ announcers ∧ (relay, attempt') ∈ senders ∧
      ∀ n, (attempt n).reached = true ∧ (attempt' n).reached = true) →
    ∃ delivery, (submitTo L perEndpoint senders endpoint body (fleet.after (.post .devices announcement)
      (submitTo L perEndpoint announcers .devices announcement fleet).made)).result = .ok delivery

-- A message that has gone through is read once everything is up again, within a day.
def ReadLater : Prop :=
  ∀ (L : RelayLibraries) (perEndpoint : UInt32) (senders : List (Nat × (Nat → Contact)))
    (readers : Nat → List (Nat × (Nat → Contact))) (endpoint : Endpoint) (body : Bytes) (fleet : Fleet)
    (query : InboxQuery) (target : Inbox),
    (∀ n, (readers n).map Prod.fst = senders.map Prod.fst) →
    (∃ delivery, (submitTo L perEndpoint senders endpoint body fleet).result = .ok delivery) →
    query.target = some target →
    (∃ relay, target ∈ putsOf body (trace (Server.turn L) (fleet.after (.post endpoint body)
      (submitTo L perEndpoint senders endpoint body fleet).made relay) Server.start)) →
    (∀ n, ∀ all ∈ polled L query perEndpoint ((List.range n).map fun k => ⟨fun _ => [], readers k⟩)
        (fleet.after (.post endpoint body) (submitTo L perEndpoint senders endpoint body fleet).made),
      ∀ v ∈ all, v.contact.reached = true ∧ v.Answers L query) →
    (∀ relay, ∀ sent ∈ (fleet.after (.post endpoint body)
        (submitTo L perEndpoint senders endpoint body fleet).made relay).filterMap clock,
      ∀ n, ∀ reader ∈ readers n, ∀ k, ∀ now ∈ (reader.2 k).turns.filterMap clock,
        now.durationSince sent ≤ queueTtl) →
    ∃ n es, .ok es ∈ pollInbox L query perEndpoint ((List.range n).map fun k => ⟨fun _ => [], readers k⟩)
        (fleet.after (.post endpoint body) (submitTo L perEndpoint senders endpoint body fleet).made) ∧
      ∃ envelope ∈ es, envelope.body = body

namespace Failover

open Zbacs.Relay.Reference

def down : Nat → Contact := fun _ => ⟨false, [], .lost⟩

-- The call gets there, its handler goes on this often, and the answer gets back.
def up (index steps : Nat) (secs : UInt64) : Nat → Contact := fun _ =>
  ⟨true, List.replicate steps (.resume index (tick secs)), .whole⟩

def bothKnow : Fleet := fun relay => if relay < 2 then announcing 0 device 5 else []

def ownerInbox : InboxQuery := ⟨some "01", none⟩

-- The first of two relays is down, when the request is sent and when it is read.
theorem known_at_second : FirstKnows libraries .requests accessRequest (visits (.post .requests accessRequest)
      (contacts 1 [(0, down), (1, up 1 5 1001)]) bothKnow) ∧
    ∃ all ∈ polled libraries ownerInbox 1 [⟨fun _ => [], [(0, down), (1, up 2 1 1010)]⟩]
      (bothKnow.after (.post .requests accessRequest) (submitTo libraries 1
        [(0, down), (1, up 1 5 1001)] .requests accessRequest bothKnow).made),
      FirstFinds libraries ownerInbox accessRequest all := by
  obtain ⟨hvalid, hsent, hread⟩ : (∀ v ∈ visits (.post .requests accessRequest)
        (contacts 1 [(0, down), (1, up 1 5 1001)]) bothKnow, v.Valid libraries .requests accessRequest) ∧
      (submitTo libraries 1 [(0, down), (1, up 1 5 1001)] .requests accessRequest bothKnow).result =
        .ok (.queued (.replicate 16 1)) ∧
      .ok [⟨.replicate 16 1, .req, accessRequest, 1001⟩] ∈
        pollInbox libraries ownerInbox 1 [⟨fun _ => [], [(0, down), (1, up 2 1 1010)]⟩]
          (bothKnow.after (.post .requests accessRequest) (submitTo libraries 1
            [(0, down), (1, up 1 5 1001)] .requests accessRequest bothKnow).made) := by
    decide +kernel
  have hiff := failover_iff libraries 1 [(0, down), (1, up 1 5 1001)] .requests accessRequest bothKnow hvalid
  exact ⟨hiff.1.mp ⟨_, hsent⟩,
    (hiff.2 ownerInbox [⟨fun _ => [], [(0, down), (1, up 2 1 1010)]⟩]).mp ⟨_, hread, by simp⟩⟩

-- The announcement gets to the first relay only, and later that one is down.

def announceBody : Bytes := posted .announce announceWire device announcement 1000 5

def announcedAtFirst : Fleet := Fleet.after (.post .devices announceBody) (fun _ => [])
  (submitTo libraries 1 [(0, up 0 2 1000), (1, up 0 2 1000)] .devices announceBody fun _ => []).made

theorem announced_elsewhere : ¬SubmitsLater := by
  intro h
  obtain ⟨hannounced, hvalid, hrefused⟩ : (submitTo libraries 1 [(0, up 0 2 1000), (1, up 0 2 1000)] .devices
        announceBody fun _ => []).result = .ok (.queued device.kid) ∧
      (∀ v ∈ visits (.post .requests accessRequest) (contacts 1 [(0, down), (1, up 0 1 1001)]) announcedAtFirst,
        v.Valid libraries .requests accessRequest ∧
          (v.contact.reached = true → v.response libraries (.post .requests accessRequest) ≠ .lost)) ∧
      (submitTo libraries 1 [(0, down), (1, up 0 1 1001)] .requests accessRequest announcedAtFirst).result =
        .error .refused := by
    decide +kernel
  obtain ⟨delivery, hok⟩ := h libraries 1 [(0, up 0 2 1000), (1, up 0 2 1000)] [(0, down), (1, up 0 1 1001)]
    announceBody .requests accessRequest (fun _ => []) rfl ⟨_, hannounced⟩ hvalid
    ⟨1, up 0 2 1000, up 0 1 1001, by simp, by simp, fun _ => ⟨rfl, rfl⟩⟩
  cases hrefused.symm.trans hok

-- The request is queued at the second relay while the first one is down. From then on both are up,
-- and the owner reads the first one.

def missing : List (Nat × (Nat → Contact)) := [(0, down), (1, up 1 5 1001)]

def queuedAtSecond : Fleet := bothKnow.after (.post .requests accessRequest)
  (submitTo libraries 1 missing .requests accessRequest bothKnow).made

def bothUp (n : Nat) : List (Nat × (Nat → Contact)) := [(0, up (n + 1) 1 1010), (1, up 2 1 1010)]

-- What a read does to a relay with nothing queued for it.
theorem empty_read {L : RelayLibraries} {query : InboxQuery} {target : Inbox} {s : Server} {n : Nat}
    (htarget : query.target = some target) (hthreads : s.threads.length = n)
    (hempty : s.shared.queues target = []) (tick : Tick) :
    (final (Server.turn L) [.start (.inbox query), .resume n tick] s).threads.length = n + 1 ∧
      (final (Server.turn L) [.start (.inbox query), .resume n tick] s).threads[n]? = some (.handed []) ∧
      (final (Server.turn L) [.start (.inbox query), .resume n tick] s).shared.queues target = [] := by
  simp [final, Server.turn, Threads.turn, Handler.run, receive, htarget, Zbacs.Relay.drain, hempty, hthreads]

def firstCall (n : Nat) (fleet : Fleet) : Visit := ⟨0, fleet 0, up (n + 1) 1 1010 0⟩

def secondCall : Visit := ⟨1, queuedAtSecond 1, up 2 1 1010 0⟩

-- The submission's run, evaluated once.
theorem queued_at_second :
    (submitTo libraries 1 missing .requests accessRequest bothKnow).result =
        .ok (.queued (.replicate 16 1)) ∧
      (final (Server.turn libraries) (queuedAtSecond 0) Server.start).threads.length = 1 ∧
      (final (Server.turn libraries) (queuedAtSecond 0) Server.start).shared.queues (.owner [1]) = [] ∧
      secondCall.handler libraries (.inbox ownerInbox) =
        some (.handed [⟨.replicate 16 1, .req, accessRequest, 1001⟩]) ∧
      .owner [1] ∈ putsOf accessRequest (trace (Server.turn libraries) (queuedAtSecond 1) Server.start) := by
  decide +kernel

theorem second_answers : secondCall.Answers libraries ownerInbox :=
  ⟨by decide, _, queued_at_second.2.2.2.1⟩

def readingOf (n : Nat) : Reading := ⟨fun _ => [], bothUp n⟩

theorem calls_of_reading {n : Nat} {fleet : Fleet} (hsecond : fleet 1 = queuedAtSecond 1) :
    visits (.inbox ownerInbox) (contacts 1 (bothUp n)) ((readingOf n).begins fleet) =
      [firstCall n fleet, secondCall] := by
  simp [visits, contacts, bothUp, Reading.begins, Fleet.after, hsecond, readingOf, firstCall, secondCall]

-- Where the first relay stands after some reads.
structure Emptied (n : Nat) (fleet : Fleet) : Prop where
  second : fleet 1 = queuedAtSecond 1
  threads : (final (Server.turn libraries) (fleet 0) Server.start).threads.length = n + 1
  empty : (final (Server.turn libraries) (fleet 0) Server.start).shared.queues (.owner [1]) = []

theorem Emptied.read {n : Nat} {fleet : Fleet} (h : Emptied n fleet) :
    (firstCall n fleet).handler libraries (.inbox ownerInbox) = some (.handed []) ∧
      (readFrom libraries ownerInbox 1 (bothUp n) ((readingOf n).begins fleet)).1 = .ok [] ∧
      Emptied (n + 1) (readFrom libraries ownerInbox 1 (bothUp n) ((readingOf n).begins fleet)).2 := by
  obtain ⟨hlonger, hhanded, hempty⟩ := @empty_read libraries ownerInbox (.owner [1]) _ _ (by decide +kernel)
    h.threads h.empty (tick 1010)
  have hhandler : (firstCall n fleet).handler libraries (.inbox ownerInbox) = some (.handed []) := by
    rw [← hhanded, firstCall, ← h.threads]
    rfl
  have hfetched : (firstCall n fleet).fetched libraries ownerInbox = .envelopes [] :=
    fetched_eq.mpr ⟨rfl, hhandler⟩
  have hread : readFrom libraries ownerInbox 1 (bothUp n) ((readingOf n).begins fleet) =
      (.ok [], ((readingOf n).begins fleet).after (.inbox ownerInbox) [firstCall n fleet]) := by
    simp only [readFrom, calls_of_reading h.second, List.map_cons, hfetched, fetchInbox, readCalls]
  have hfirst : ((readingOf n).begins fleet).after (.inbox ownerInbox) [firstCall n fleet] 0 =
      fleet 0 ++ [.start (.inbox ownerInbox), .resume (n + 1) (tick 1010)] := by
    simp [Fleet.after, Reading.begins, readingOf, firstCall, Contact.took, up]
  rw [hread]
  dsimp only
  refine ⟨hhandler, rfl, ?_, ?_, ?_⟩
  · simp [Fleet.after, Reading.begins, readingOf, firstCall, h.second]
  · rw [hfirst, final_append, hlonger]
  · rw [hfirst, final_append, hempty]

theorem Emptied.reads {n : Nat} {fleet : Fleet} (h : Emptied n fleet) (count : Nat) :
    pollInbox libraries ownerInbox 1 ((List.range' n count).map readingOf) fleet =
        List.replicate count (.ok []) ∧
      ∀ all ∈ polled libraries ownerInbox 1 ((List.range' n count).map readingOf) fleet,
        ∀ v ∈ all, v.contact.reached = true ∧ v.Answers libraries ownerInbox := by
  induction count generalizing n fleet with
  | zero => exact ⟨rfl, fun all hall => absurd hall List.not_mem_nil⟩
  | succ count ih =>
      obtain ⟨hhandler, hok, hnext⟩ := h.read
      obtain ⟨hrest, hanswers⟩ := ih hnext
      constructor
      · rw [List.range'_succ, List.map_cons, pollInbox, List.replicate_succ, ← hrest, ← hok]
        rfl
      · rw [List.range'_succ, List.map_cons, polled]
        refine List.forall_mem_cons.mpr ⟨fun v hv => ?_, hanswers⟩
        have hcalls : v ∈ [firstCall n fleet, secondCall] := calls_of_reading h.second ▸ hv
        rcases List.mem_pair.mp hcalls with rfl | rfl
        · exact ⟨rfl, Hearing.noConfusion, [], hhandler⟩
        · exact ⟨rfl, second_answers⟩

theorem queued_elsewhere : ¬ReadLater := by
  intro h
  obtain ⟨hsent, hthreads, hempty, -, hputs⟩ := queued_at_second
  have hemptied : Emptied 0 queuedAtSecond := ⟨rfl, hthreads, hempty⟩
  have hup : ∀ n, ∀ all ∈ polled libraries ownerInbox 1
      ((List.range n).map fun k => ⟨fun _ => [], bothUp k⟩) queuedAtSecond,
      ∀ v ∈ all, v.contact.reached = true ∧ v.Answers libraries ownerInbox := by
    intro n
    rw [List.range_eq_range']
    exact (hemptied.reads n).2
  -- 1010 seconds after the epoch nothing is a day old
  have hyoung : ∀ relay, ∀ sent ∈ (queuedAtSecond relay).filterMap clock, ∀ n, ∀ reader ∈ bothUp n,
      ∀ k, ∀ now ∈ (reader.2 k).turns.filterMap clock, now.durationSince sent ≤ queueTtl := by
    intro relay sent _ n reader hreader k now hnow
    have hnow : now = (tick 1010).now := by
      rcases List.mem_pair.mp hreader with rfl | rfl <;> simpa [up, clock] using hnow
    subst hnow
    exact (Nat.sub_le _ _).trans (by decide)
  obtain ⟨n, es, hes, envelope, hmem, -⟩ := h libraries 1 missing bothUp .requests accessRequest bothKnow
    ownerInbox (.owner [1]) (fun _ => rfl) ⟨_, hsent⟩ (by decide +kernel) ⟨1, hputs⟩ hup hyoung
  rw [List.range_eq_range'] at hes
  change _ ∈ pollInbox libraries ownerInbox 1 ((List.range' 0 n).map readingOf) queuedAtSecond at hes
  rw [(hemptied.reads n).1] at hes
  have hnone : es = [] := Except.ok.inj (List.eq_of_mem_replicate hes)
  subst hnone
  cases hmem

-- Each relay has what came to it, and both sides stop at the first one that answers.
theorem failover_loses : ¬SubmitsLater ∧ ¬ReadLater := ⟨announced_elsewhere, queued_elsewhere⟩

end Failover

end Zbacs.Agent
