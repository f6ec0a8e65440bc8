import Zbacs.Agent.Failover
import Zbacs.Relay.Answers
import Zbacs.Relay.Puts

namespace Zbacs.Agent

open Zbacs.Lib Zbacs.Proto Zbacs.Relay

-- The client has an answer of the relay.
def Visit.Hears (L : RelayLibraries) (arrival : Arrival) (v : Visit) (ack : Ack) : Prop :=
  v.contact.hearing = .whole ∧ v.handler L arrival = some (.replied ack)

-- Some relay has queued the message, or registered the device.
def Landed (L : RelayLibraries) (endpoint : Endpoint) (body : Bytes) (fleet : Fleet) : Prop :=
  ∃ relay index, Went index (trace (Server.turn L) (fleet relay) Server.start) fun h _ _ =>
    endpoint.Delivers L body h

-- A handler other than the one of this call has.
def Visit.LandedBeside (L : RelayLibraries) (endpoint : Endpoint) (body : Bytes) (v : Visit) (fleet : Fleet) :
    Prop :=
  ∃ relay index, (relay, index) ≠ (v.relay, v.index L) ∧
    Went index (trace (Server.turn L) (fleet relay) Server.start) fun h _ _ => endpoint.Delivers L body h

-- The nonce was in the relay's memory when the call arrived, or its revocation found nobody.
def Visit.Idle (L : RelayLibraries) (endpoint : Endpoint) (body : Bytes) (v : Visit) : Prop :=
  Went (v.index L) (v.log L (.post endpoint body)) (Burnt L endpoint body) ∨
    Went (v.index L) (v.log L (.post endpoint body)) (Unheeded body)

section Answers

variable {L : RelayLibraries} {endpoint : Endpoint} {body : Bytes} {v : Visit} {ack : Ack}

theorem handler_onCourse {h : Handler} (hhandler : v.handler L (.post endpoint body) = some h) :
    OnCourse L endpoint body (v.index L) (v.log L (.post endpoint body)) h := by
  obtain ⟨s, hthread, hfinal, hlog⟩ := Visit.of_reached (v.reached_of_handler hhandler)
  have harrived : OnCourse L endpoint body (v.index L)
    [taken (Server.turn L) (v.before L) (.start (.post endpoint body))]
    (.arrived (.post endpoint body)) := rfl
  obtain ⟨h', hfinal', hcourse⟩ := onCourse_final hthread harrived v.contact.turns
  rw [hfinal, hfinal'] at hhandler
  cases hhandler
  rw [hlog]
  exact hcourse

theorem handler_final (hhandler : v.handler L (.post endpoint body) = some (.replied ack)) :
    (final (Server.turn L) (v.contact.took (.post endpoint body)) (v.before L)).threads[v.index L]? =
      some (.replied ack) := by
  unfold Visit.handler at hhandler
  split_ifs at hhandler
  exact hhandler

-- A call that found what is always answered like this has been answered like this.
theorem answer_of_run {like : Handler → Instant → Zbacs.Relay → Prop} {a : Ack}
    (hrun : ∀ h tick r, like h tick.now r → (Handler.run L h tick r).2.1 = .replied a)
    (hwent : Went (v.index L) (v.log L (.post endpoint body)) like)
    (hhandler : v.handler L (.post endpoint body) = some (.replied ack)) : ack = a := by
  obtain ⟨h, tick, r, s', after, hlike, hthread, hfinal⟩ := went_then hwent
  rw [hrun h tick r hlike] at hthread
  have hanswer := handler_final hhandler
  rw [hfinal, still_final hthread (fun _ _ => rfl) after] at hanswer
  cases hanswer
  rfl

-- A burnt nonce is answered `replayed`, and a revocation for nobody is accepted.
theorem idle_acknowledged (hidle : v.Idle L endpoint body)
    (hhandler : v.handler L (.post endpoint body) = some (.replied ack)) :
    ack.ok = true ∨ ack.error = some .replayed := by
  rcases hidle with hburnt | hunheeded
  · rw [answer_of_run (fun h tick r => burnt_run) hburnt hhandler]
    exact .inr rfl
  · obtain ⟨h, tick, r, s', after, ⟨revoke, rfl, hnobody⟩, hthread, hfinal⟩ := went_then hunheeded
    obtain ⟨h', hlater, hobliging⟩ := obliging_final (L := L) hthread rfl after
    have hanswer := handler_final hhandler
    rw [hfinal, hlater] at hanswer
    cases hanswer
    exact .inl hobliging

-- Its own handler has queued nothing then, neither before nor after.
theorem idle_delivers_nothing {turns : List (Turn Arrival Tick)} (hidle : v.Idle L endpoint body)
    (hlog : v.log L (.post endpoint body) ⊆ trace (Server.turn L) turns Server.start) :
    ¬Went (v.index L) (trace (Server.turn L) turns Server.start) fun h _ _ => endpoint.Delivers L body h := by
  rcases hidle with hburnt | hunheeded
  · refine not_delivers (hburnt.mono hlog) fun h tick r hlike => ?_
    rw [burnt_run hlike]
    obtain ⟨rfl, -⟩ := hlike
    exact ⟨rfl, rfl⟩
  · refine not_delivers (hunheeded.mono hlog) fun h tick r hlike => ?_
    obtain ⟨revoke, rfl, hnobody⟩ := hlike
    exact ⟨rfl, by simp [Handler.run, hnobody, Handler.finished]⟩

-- What keeps a submission out keeps it out for good.
theorem codeOf_final (e : Endpoint) (why : Unfit) :
    e.codeOf why ≠ .replayed ∧ retryable (e.codeOf why) = false := by
  have hcode : ∀ why : ProtoError, why.code ≠ .replayed ∧ retryable why.code = false := by
    intro why
    cases why <;> exact ⟨ErrorCode.noConfusion, rfl⟩
  cases why with
  | tooLarge => exact ⟨ErrorCode.noConfusion, rfl⟩
  | unreadable why | unverified why =>
      unfold Endpoint.codeOf
      dsimp only
      split_ifs
      · exact ⟨ErrorCode.noConfusion, rfl⟩
      · exact hcode why
  | unknownDevice =>
      unfold Endpoint.codeOf
      dsimp only
      split_ifs <;> exact ⟨ErrorCode.noConfusion, rfl⟩

-- What is acknowledged was delivered by its handler, or the call was idle.
theorem acknowledged_cases (hhandler : v.handler L (.post endpoint body) = some (.replied ack))
    (hack : ack.ok = true ∨ ack.error = some .replayed) :
    v.Idle L endpoint body ∨
      Went (v.index L) (v.log L (.post endpoint body)) fun h _ _ => endpoint.Delivers L body h := by
  have hanswered : Relay.Answered L endpoint body _ _ ack := handler_onCourse hhandler
  cases hanswered with
  | burnt h => exact .inl (.inl h)
  | accepted _ _ h id => exact h.symm.imp .inr fun h => h
  | @unfit why h =>
      rcases hack with hok | herror
      · cases hok
      · exact absurd (Option.some.inj herror) (codeOf_final endpoint why).1
  | mislabelled | limited | unrouted => rcases hack with h | h <;> cases h
  | improper hbody hnext hcode => rcases hcode with rfl | rfl <;> rcases hack with h | h <;> cases h

end Answers

section Sent

variable {L : RelayLibraries} {endpoint : Endpoint} {body : Bytes} {fleet : Fleet} {v : Visit}
  {calls : List (Nat × Contact)}

theorem response_eq_ack {ack : Ack} : v.response L (.post endpoint body) = .ack ack ↔
    v.Hears L (.post endpoint body) ack := by
  unfold Visit.response Visit.Hears
  split <;> simp_all

theorem acknowledged_iff : (v.exchange L (.post endpoint body)).acknowledged = true ↔
    ∃ ack, v.Hears L (.post endpoint body) ack ∧ (ack.ok = true ∨ ack.error = some .replayed) := by
  simp only [Visit.exchange, Exchange.acknowledged, ← response_eq_ack]
  cases v.response L (.post endpoint body) <;> simp

theorem sendOver_ok_iff : (∃ delivery, (sendOver L endpoint body calls fleet).result = .ok delivery) ↔
    ∃ v ∈ (sendOver L endpoint body calls fleet).made, ∃ ack, v.Hears L (.post endpoint body) ack ∧
      (ack.ok = true ∨ ack.error = some .replayed) := by
  simp only [sendOver]
  rw [submit_ok_iff_made]
  conv_lhs => rw [made_eq_map]
  simp only [List.mem_map, exists_exists_and_eq_and, acknowledged_iff]

-- What a call does is part of what its relay has done in the end.
theorem log_subset_made (hv : v ∈ (sendOver L endpoint body calls fleet).made) :
    v.log L (.post endpoint body) ⊆ trace (Server.turn L)
      (fleet.after (.post endpoint body) (sendOver L endpoint body calls fleet).made v.relay)
      Server.start := by
  obtain ⟨vs, ws, hmade⟩ := List.append_of_mem hv
  obtain ⟨rest, hall⟩ := List.take_prefix _ (visits (.post endpoint body) calls fleet)
  change (sendOver L endpoint body calls fleet).made ++ rest = _ at hall
  rw [hmade, List.append_assoc, List.cons_append] at hall
  rw [hmade]
  exact log_subset hall.symm ws

theorem success_iff :
    ((∃ delivery, (sendOver L endpoint body calls fleet).result = .ok delivery) →
      Landed L endpoint body
        (fleet.after (.post endpoint body) (sendOver L endpoint body calls fleet).made)) ↔
    ∀ v ∈ (sendOver L endpoint body calls fleet).made, ∀ ack, v.Hears L (.post endpoint body) ack →
      v.Idle L endpoint body → v.LandedBeside L endpoint body
        (fleet.after (.post endpoint body) (sendOver L endpoint body calls fleet).made) := by
  rw [sendOver_ok_iff]
  constructor
  · rintro hsuccess v hv ack hhears hidle
    obtain ⟨relay, index, hdelivered⟩ :=
      hsuccess ⟨v, hv, ack, hhears, idle_acknowledged hidle hhears.2⟩
    refine ⟨relay, index, ?_, hdelivered⟩
    rintro heq
    obtain ⟨rfl, rfl⟩ := Prod.mk.inj heq
    exact idle_delivers_nothing hidle (log_subset_made hv) hdelivered
  · rintro hbeside ⟨v, hv, ack, hhears, hack⟩
    rcases acknowledged_cases hhears.2 hack with hidle | hdelivered
    · obtain ⟨relay, index, -, hother⟩ := hbeside v hv ack hhears hidle
      exact ⟨relay, index, hother⟩
    · exact ⟨v.relay, v.index L, hdelivered.mono (log_subset_made hv)⟩

theorem relay_of_visits {arrival : Arrival} (hv : v ∈ visits arrival calls fleet) :
    v.relay ∈ calls.map Prod.fst := by
  induction calls generalizing fleet with
  | nil => cases hv
  | cons call calls ih =>
      rcases List.mem_cons.mp hv with rfl | hlater
      · exact List.mem_cons_self
      · exact List.mem_cons_of_mem _ (ih hlater)

theorem after_of_not_called {relay : Nat} (h : relay ∉ calls.map Prod.fst) :
    fleet.after (.post endpoint body) (sendOver L endpoint body calls fleet).made relay = fleet relay := by
  have hothers : (sendOver L endpoint body calls fleet).made.flatMap (fun v =>
      if v.relay = relay then v.contact.took (.post endpoint body) else []) = [] := by
    refine List.flatMap_eq_nil_iff.mpr fun v hv => if_neg ?_
    rintro rfl
    exact h (relay_of_visits (List.mem_of_mem_take hv))
  rw [Fleet.after, hothers, List.append_nil]

-- A message that has landed was queued somewhere.
theorem Landed.puts (h : Landed L endpoint body fleet) (he : endpoint ≠ .devices) :
    ∃ relay, putsOf body (trace (Server.turn L) (fleet relay) Server.start) ≠ [] := by
  obtain ⟨relay, index, x, hx, h, tick, hstep, hdelivers⟩ := h
  refine ⟨relay, fun hnone => ?_⟩
  have hput : ∃ inbox, h.putOf body tick = some inbox := by
    cases endpoint with
    | devices => exact absurd rfl he
    | requests | grants | versions | revocations =>
        obtain ⟨target, targets, kind, id, rfl⟩ := hdelivers
        exact ⟨target, by simp [Handler.putOf, Handler.put]⟩
  obtain ⟨inbox, hput⟩ := hput
  have hmem : inbox ∈ putsOf body (trace (Server.turn L) (fleet relay) Server.start) :=
    List.mem_filterMap.mpr ⟨x, hx, by rw [hstep]; exact hput⟩
  rw [hnone] at hmem
  cases hmem

end Sent

-- When `submit` succeeds, some relay has queued the message or registered the device, exactly when
-- every call the client hears of at a relay that already remembered the nonce, or had nobody for a
-- revocation, has another handler beside it that queued the message. No relay ever queues it twice
-- in one inbox.
theorem success_means_queued (L : RelayLibraries) (perEndpoint : UInt32)
    (endpoints : List (Nat × (Nat → Contact))) (endpoint : Endpoint) (body : Bytes) (fleet : Fleet)
    (hclock : ∀ relay, Forward (fleet.after (.post endpoint body)
      (submitTo L perEndpoint endpoints endpoint body fleet).made relay)) :
    (((∃ delivery, (submitTo L perEndpoint endpoints endpoint body fleet).result = .ok delivery) →
        Landed L endpoint body (fleet.after (.post endpoint body)
          (submitTo L perEndpoint endpoints endpoint body fleet).made)) ↔
      ∀ v ∈ (submitTo L perEndpoint endpoints endpoint body fleet).made, ∀ ack,
        v.Hears L (.post endpoint body) ack → v.Idle L endpoint body →
        v.LandedBeside L endpoint body (fleet.after (.post endpoint body)
          (submitTo L perEndpoint endpoints endpoint body fleet).made)) ∧
    ∀ relay, (putsOf body (trace (Server.turn L) (fleet.after (.post endpoint body)
      (submitTo L perEndpoint endpoints endpoint body fleet).made relay) Server.start)).Nodup :=
  ⟨success_iff, fun relay => putsOf_nodup (hclock relay) body⟩

namespace Failover

open Zbacs.Relay.Reference

-- One relay that a device has registered with.
def known : Fleet := fun relay => if relay = 0 then announcing 0 device 5 else []

-- Of the first attempt nothing is heard.
def retrying (steps : Nat) : List (Nat × (Nat → Contact)) :=
  [(0, fun n =>
    if n = 0 then ⟨true, List.replicate steps (.resume 1 (tick 1002)), .lost⟩
    else ⟨true, [.resume 2 (tick 1003)], .whole⟩)]

-- It answers a request that the relay does not know.
def strayGrant : Bytes := posted .grant grantWire device Relay.Reference.refusal 1002 9

def accessRequest : Bytes := posted .req requestWire device request 1001 7

theorem elsewhere_nothing {endpoint : Endpoint} {body : Bytes} {relay steps : Nat} (h : relay ≠ 0) :
    known.after (.post endpoint body)
      (submitTo libraries 3 (retrying steps) endpoint body known).made relay = [] := by
  have hnot : relay ∉ (contacts 3 (retrying steps)).map Prod.fst := by
    simp [contacts, retrying, Ne.symm h]
  rw [submitTo, after_of_not_called hnot, known, if_neg h]

theorem stray_not_landed :
    ¬∀ (L : RelayLibraries) (perEndpoint : UInt32) (endpoints : List (Nat × (Nat → Contact)))
      (endpoint : Endpoint) (body : Bytes) (fleet : Fleet),
      (∃ delivery, (submitTo L perEndpoint endpoints endpoint body fleet).result = .ok delivery) →
      Landed L endpoint body (fleet.after (.post endpoint body)
        (submitTo L perEndpoint endpoints endpoint body fleet).made) := by
  intro h
  obtain ⟨hsent, hnone⟩ : (submitTo libraries 3 (retrying 2) .grants strayGrant known).result =
        .ok .alreadyDelivered ∧
      putsOf strayGrant (trace (Server.turn libraries) (known.after (.post .grants strayGrant)
        (submitTo libraries 3 (retrying 2) .grants strayGrant known).made 0) Server.start) = [] := by
    decide +kernel
  obtain ⟨relay, hputs⟩ := (h libraries 3 (retrying 2) .grants strayGrant known ⟨_, hsent⟩).puts (by decide)
  by_cases hrelay : relay = 0
  · subst hrelay
    exact hputs hnone
  · rw [elsewhere_nothing hrelay] at hputs
    exact hputs rfl

-- The answer to a request that was queued is lost, and the retry is told that it is known.
theorem retry_lands :
    (submitTo libraries 3 (retrying 4) .requests accessRequest known).result = .ok .alreadyDelivered ∧
      putsOf accessRequest (trace (Server.turn libraries) (known.after (.post .requests accessRequest)
        (submitTo libraries 3 (retrying 4) .requests accessRequest known).made 0) Server.start) =
          [.owner request.owner] ∧
      (putsOf accessRequest (trace (Server.turn libraries) (known.after (.post .requests accessRequest)
        (submitTo libraries 3 (retrying 4) .requests accessRequest known).made 0) Server.start)).Nodup := by
  obtain ⟨hsent, hputs, hforward⟩ : (submitTo libraries 3 (retrying 4) .requests accessRequest known).result =
        .ok .alreadyDelivered ∧
      putsOf accessRequest (trace (Server.turn libraries) (known.after (.post .requests accessRequest)
        (submitTo libraries 3 (retrying 4) .requests accessRequest known).made 0) Server.start) =
          [.owner request.owner] ∧
      Forward (known.after (.post .requests accessRequest)
        (submitTo libraries 3 (retrying 4) .requests accessRequest known).made 0) := by
    unfold Forward
    decide +kernel
  refine ⟨hsent, hputs, ?_⟩
  refine (success_means_queued libraries 3 (retrying 4) .requests accessRequest known fun relay => ?_).2 0
  by_cases hrelay : relay = 0
  · subst hrelay
    exact hforward
  · rw [elsewhere_nothing hrelay]
    exact List.Pairwise.nil

end Failover

end Zbacs.Agent
