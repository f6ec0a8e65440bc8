import Mathlib.Data.List.Pairwise
import Zbacs.Relay.Refusals

namespace Zbacs.Relay

open Zbacs.Lib Zbacs.Proto

-- A request that is remembered: its nonce, the device that asked and when.
abbrev Asked := FixedBytes 16 × FixedBytes 16 × Instant

def Handler.ask (tick : Tick) : Handler → Option Asked
  | .remembering kid request _ => some (request.nonce, kid, tick.now)
  | _ => none

def asked (x : Served) : Option Asked := (stepOf x).bind fun (_, h, tick) => h.ask tick

def asks (log : List Served) : List Asked := log.filterMap asked

-- Who asked last with this nonce.
def lastAsked (nonce : FixedBytes 16) (log : List Served) : Option (FixedBytes 16 × Instant) :=
  ((asks log).filter fun a => a.1 = nonce).getLast?.map Prod.snd

-- What a step does to the routes.
inductive Routed (now : Instant) (r r' : Zbacs.Relay) : Option Asked → Prop where
  | kept (h : r'.requestRoutes = r.requestRoutes) : Routed now r r' none
  | pruned (h : r'.requestRoutes = fun nonce => (r.requestRoutes nonce).filter fun (_, since) =>
      now.durationSince since < queueTtl) : Routed now r r' none
  | remembered {nonce kid : FixedBytes 16}
      (h : r'.requestRoutes = Function.update r.requestRoutes nonce (some (kid, now))) :
      Routed now r r' (some (nonce, kid, now))

section Routes

variable {L : RelayLibraries} {log : List Served} {x : Served} {r r' : Zbacs.Relay} {nonce : FixedBytes 16}

theorem run_routed (h : Handler) (tick : Tick) : Routed tick.now r (h.run L tick r).2.2 (h.ask tick) := by
  cases h with
  | arrived arrival =>
      cases arrival with
      | post e body =>
          have hchecked := @arrived_checked L r e body tick
          generalize (Handler.arrived (.post e body)).run L tick r = out at hchecked ⊢
          cases hchecked with
          | unfit | refused => exact .kept rfl
          | metered => exact .kept (takeQuotaAndNonce_metered _ _ r).routes
      | inbox query =>
          simp only [Handler.run, receive]
          cases query.target <;> exact .kept rfl
  | queueing targets kind body id => cases targets <;> exact .kept rfl
  | routing grant body =>
      rw [routing_leaves.2]
      exact .pruned rfl
  | remembering kid request body => exact .remembered rfl
  | announcing | noting | lookingUp | replied | handed => exact .kept rfl

-- A nonce leads to whoever asked last with it, unless a reading of the clock was too late for that.
structure Routes (log : List Served) (r : Zbacs.Relay) : Prop where
  sound : ∀ nonce route, r.requestRoutes nonce = some route → lastAsked nonce log = some route
  held : ∀ nonce kid t, lastAsked nonce log = some (kid, t) →
    r.requestRoutes nonce = some (kid, t) ∨ ∃ now ∈ readings log, queueTtl ≤ now.durationSince t

theorem asks_concat : asks (log ++ [x]) = asks log ++ (asked x).toList := by
  rw [asks, List.filterMap_append, asks]
  cases h : asked x <;> simp [h]

theorem lastAsked_quiet (h : asked x = none) (nonce : FixedBytes 16) :
    lastAsked nonce (log ++ [x]) = lastAsked nonce log := by
  simp [lastAsked, asks_concat, h]

theorem lastAsked_asked {n kid : FixedBytes 16} {t : Instant} (h : asked x = some (n, kid, t))
    (nonce : FixedBytes 16) :
    lastAsked nonce (log ++ [x]) = if n = nonce then some (kid, t) else lastAsked nonce log := by
  by_cases hn : n = nonce <;> simp [lastAsked, asks_concat, h, hn]

theorem Routes.step (h : Routes log r) {now : Instant} (hclock : clock x.input = some now)
    (hrouted : Routed now r r' (asked x)) : Routes (log ++ [x]) r' := by
  have hreadings : readings (log ++ [x]) = readings log ++ [now] := by
    rw [readings_concat, hclock]
    rfl
  generalize hask : asked x = ask at hrouted
  cases hrouted with
  | kept hkept =>
      refine ⟨fun nonce route hroute => ?_, fun nonce kid t hlast => ?_⟩
      · rw [lastAsked_quiet hask]
        exact h.sound nonce route (hkept ▸ hroute)
      · rw [lastAsked_quiet hask] at hlast
        rw [hkept, hreadings]
        exact (h.held nonce kid t hlast).imp id fun ⟨past, hpast, hlate⟩ =>
          ⟨past, List.mem_append_left _ hpast, hlate⟩
  | pruned hpruned =>
      refine ⟨fun nonce route hroute => ?_, fun nonce kid t hlast => ?_⟩
      · rw [hpruned] at hroute
        rw [lastAsked_quiet hask]
        exact h.sound nonce route (Option.filter_eq_some_iff.mp hroute).1
      · rw [lastAsked_quiet hask] at hlast
        rw [hpruned, hreadings]
        rcases h.held nonce kid t hlast with hroute | ⟨past, hpast, hlate⟩
        · by_cases hyoung : now.durationSince t < queueTtl
          · exact .inl (Option.filter_eq_some_iff.mpr ⟨hroute, decide_eq_true hyoung⟩)
          · exact .inr ⟨now, List.mem_append_right _ (List.mem_singleton_self now),
              Nat.not_lt.mp hyoung⟩
        · exact .inr ⟨past, List.mem_append_left _ hpast, hlate⟩
  | @remembered n k hremembered =>
      refine ⟨fun nonce route hroute => ?_, fun nonce kid t hlast => ?_⟩
      · rw [lastAsked_asked hask]
        rw [hremembered] at hroute
        by_cases hn : n = nonce
        · subst hn
          rwa [if_pos rfl, ← Function.update_self n (some (k, now)) r.requestRoutes]
        · rw [Function.update_of_ne (Ne.symm hn)] at hroute
          rw [if_neg hn]
          exact h.sound nonce route hroute
      · rw [lastAsked_asked hask] at hlast
        rw [hremembered, hreadings]
        by_cases hn : n = nonce
        · subst hn
          rw [if_pos rfl] at hlast
          exact .inl ((Function.update_self ..).trans hlast)
        · rw [if_neg hn] at hlast
          rw [Function.update_of_ne (Ne.symm hn)]
          exact (h.held nonce kid t hlast).imp id fun ⟨past, hpast, hlate⟩ =>
            ⟨past, List.mem_append_left _ hpast, hlate⟩

theorem Routes.turn {s : Server} (h : Routes log s.shared) (a : Turn Arrival Tick) :
    Routes (log ++ [taken (Server.turn L) s a]) (Server.turn L s a).2.shared := by
  rcases turn_step (L := L) s a with ⟨hnone, hshared, -⟩ | ⟨index, handler, tick, rfl, -, hstep, hturn⟩
  · have hask : asked (taken (Server.turn L) s a) = none := by
      rw [asked, hnone]
      rfl
    rw [hshared]
    refine ⟨fun nonce route hroute => ?_, fun nonce kid t hlast => ?_⟩
    · rw [lastAsked_quiet hask]
      exact h.sound nonce route hroute
    · rw [lastAsked_quiet hask] at hlast
      rw [readings_concat]
      exact (h.held nonce kid t hlast).imp id fun ⟨past, hpast, hlate⟩ =>
        ⟨past, List.mem_append_left _ hpast, hlate⟩
  · have hask : asked (taken (Server.turn L) s (.resume index tick)) = handler.ask tick := by
      rw [asked, hstep]
      rfl
    have hrouted : Routed tick.now s.shared _ _ := run_routed (L := L) handler tick
    rw [hturn]
    rw [← hask] at hrouted
    exact h.step rfl hrouted

theorem routes_final (turns : List (Turn Arrival Tick)) :
    Routes (trace (Server.turn L) turns Server.start)
      (final (Server.turn L) turns Server.start).shared := by
  refine @trace_induct _ _ _ (Server.turn L) (fun log s => Routes log s.shared) _ ?_
    (fun log s a h => h.turn a) turns
  refine ⟨fun _ _ hroute => ?_, fun _ _ _ hlast => ?_⟩
  · cases hroute
  · simp [lastAsked, asks] at hlast

end Routes

section Order

variable {L : RelayLibraries} {log : List Served} {x : Served} {nonce kid : FixedBytes 16}
  {t now : Instant}

theorem clock_of_asked {a : Asked} (h : asked x = some a) : clock x.input = some a.2.2 := by
  obtain ⟨⟨index, handler, tick⟩, hstep, hmine⟩ := Option.bind_eq_some_iff.mp h
  have hclock : clock x.input = some tick.now := by
    unfold stepOf at hstep
    split at hstep
    · cases hstep
    · rename_i heq
      obtain ⟨_, -, hsame⟩ := Option.map_eq_some_iff.mp hstep
      cases hsame
      rw [heq]
      rfl
  cases handler with
  | remembering kid request body =>
      cases hmine
      exact hclock
  | arrived | announcing | noting | routing | lookingUp | queueing | replied | handed => cases hmine

-- The times of the requests are readings of the clock, in their order.
theorem asks_sublist (log : List Served) :
    ((asks log).map fun a => a.2.2).Sublist (readings log) := by
  induction log with
  | nil => exact List.Sublist.refl _
  | cons x log ih =>
      rw [asks, readings, List.filterMap_cons, List.filterMap_cons]
      cases hask : asked x with
      | none =>
          cases clock x.input with
          | none => exact ih
          | some now => exact ih.cons _
      | some a =>
          rw [clock_of_asked hask]
          exact ih.cons_cons _

-- Who asked last with a nonce asked no earlier than anyone else with it.
theorem le_lastAsked (hclock : (readings log).Pairwise fun t t' => t.toNanos ≤ t'.toNanos)
    (ha : (nonce, kid, t) ∈ asks log) :
    ∃ kid' t', lastAsked nonce log = some (kid', t') ∧ t.toNanos ≤ t'.toNanos := by
  have hmem : (nonce, kid, t) ∈ (asks log).filter fun a => a.1 = nonce :=
    List.mem_filter.mpr ⟨ha, decide_eq_true rfl⟩
  have hordered : (((asks log).filter fun a => a.1 = nonce).map fun a => a.2.2).Pairwise
      fun t t' => t.toNanos ≤ t'.toNanos :=
    hclock.sublist ((List.filter_sublist.map _).trans (asks_sublist log))
  unfold lastAsked
  generalize (asks log).filter (fun a => a.1 = nonce) = mine at hmem hordered ⊢
  rcases List.eq_nil_or_concat mine with rfl | ⟨earlier, last, rfl⟩
  · exact absurd hmem List.not_mem_nil
  · rw [List.concat_eq_append] at hmem hordered ⊢
    refine ⟨last.2.1, last.2.2, by simp, ?_⟩
    rcases List.mem_append.mp hmem with hbefore | hlast
    · rw [List.map_append, List.pairwise_append] at hordered
      exact hordered.2.2 t (List.mem_map.mpr ⟨_, hbefore, rfl⟩) last.2.2 (by simp)
    · rw [← List.mem_singleton.mp hlast]

-- A route that is young at this reading was young at all before it.
theorem Routes.routeFor {r : Zbacs.Relay} (h : Routes log r)
    (hclock : ∀ past ∈ readings log, past.toNanos ≤ now.toNanos)
    (hlast : lastAsked nonce log = some (kid, t)) (hyoung : now.durationSince t < queueTtl) :
    (r.routeFor nonce now).1 = .ok kid := by
  have hroute : r.requestRoutes nonce = some (kid, t) := by
    rcases h.held nonce kid t hlast with hroute | ⟨past, hpast, hlate⟩
    · exact hroute
    · have hle := hclock past hpast
      unfold Instant.durationSince at hyoung hlate
      omega
  have hkept : (r.requestRoutes nonce).filter (fun (_, since) => now.durationSince since < queueTtl) =
      some (kid, t) := by
    rw [hroute, Option.filter_some, if_pos (decide_eq_true hyoung)]
  unfold Zbacs.Relay.routeFor
  dsimp only
  rw [hkept]

end Order

-- An answer goes to the device that asked with its nonce within a day, exactly when that device asked
-- last with it; then it is queued for it when the handler goes on.
theorem answer_reaches_last_asker (L : RelayLibraries) (turns : List (Turn Arrival Tick))
    (hclock : Forward turns) (before after : List (Turn Arrival Tick)) (index : Nat) (tick : Tick)
    (grant : GrantMsg) (body : Bytes) (hturns : turns = before ++ .resume index tick :: after)
    (hthread : (final (Server.turn L) before Server.start).threads[index]? =
      some (.routing grant body)) (kid : FixedBytes 16) (t : Instant)
    (hasked : (grant.requestNonce, kid, t) ∈ asks (trace (Server.turn L) before Server.start))
    (hyoung : tick.now.durationSince t < queueTtl) :
    (((Server.turn L (final (Server.turn L) before Server.start) (.resume index tick)).2.threads[index]? =
        some (.queueing [.device kid] .grant body (.replicate 16 0)) ∧
      putBy index (trace (Server.turn L) turns Server.start) =
        [(.device kid, .grant, body)].take (resumed index after)) ↔
    ∃ t', lastAsked grant.requestNonce (trace (Server.turn L) before Server.start) =
      some (kid, t')) := by
  subst hturns
  have hroutes := routes_final (L := L) before
  rw [Forward, List.filterMap_append] at hclock
  obtain ⟨hordered, -, hpast⟩ := List.pairwise_append.mp hclock
  rw [← readings_trace (L := L) before Server.start] at hordered hpast
  obtain ⟨kid', t', hlast, hle⟩ := le_lastAsked hordered hasked
  have hrecent : tick.now.durationSince t' < queueTtl := by
    unfold Instant.durationSince at hyoung ⊢
    omega
  have hroute := hroutes.routeFor (fun past hmem => hpast past hmem _ List.mem_cons_self) hlast hrecent
  obtain ⟨hput, hnext⟩ := turn_mine (L := L) hthread tick
  have hqueueing : (Server.turn L (final (Server.turn L) before Server.start)
      (.resume index tick)).2.threads[index]? =
        some (.queueing [.device kid'] .grant body (.replicate 16 0)) := by
    rw [hnext]
    obtain ⟨kid, hkid, hrun⟩ | ⟨why, hwhy, -⟩ := @routing_cases L grant body tick
      (final (Server.turn L) before Server.start).shared
    · rw [hrun, Except.ok.inj (hkid.symm.trans hroute)]
    · cases hwhy.symm.trans hroute
  constructor
  · rintro ⟨hmine, -⟩
    rw [hqueueing] at hmine
    cases hmine
    exact ⟨t', hlast⟩
  · rintro ⟨t'', hmine⟩
    rw [hlast] at hmine
    cases hmine
    refine ⟨hqueueing, ?_⟩
    have hnothing : putBy index (trace (Server.turn L) before Server.start) = [] := by
      refine early_puts before index fun h hmem => ?_
      rw [hthread] at hmem
      cases hmem
      rfl
    rw [trace_append, putBy_append, hnothing, putBy_trace_cons, hput, queueing_puts hqueueing]
    rfl

namespace Reference

-- A message as a device sends it.
def posted {α : Type} (kind : Kind) (w : Cbor.Wire α) (sender : DeviceIdentity libraries.toLibraries)
    (a : α) (ts : UInt64) (nonce : UInt8) : Bytes :=
  match Signed.sign libraries.toLibraries kind w.codec sender a ts (.replicate 16 nonce) with
  | .error _ => []
  | .ok signed => signedWire.put signed

-- A submission and the steps of its handler.
def submission (index : Nat) (e : Endpoint) (body : Bytes) (secs : UInt64) (steps : Nat) :
    List (Turn Arrival Tick) :=
  .start (.post e body) :: List.replicate steps (.resume index (tick secs))

def rival : DeviceIdentity libraries.toLibraries := ⟨Core.Reference.device, ⟨.replicate 32 0x44⟩⟩

def announcing (index : Nat) (sender : DeviceIdentity libraries.toLibraries) (nonce : UInt8) :
    List (Turn Arrival Tick) :=
  submission index .devices (posted .announce announceWire sender
    ⟨sender.x25519Pub, sender.ed25519Pub, none, 1000⟩ 1000 nonce) 1000 2

-- Everyone's request has the same nonce.
def requesting (index : Nat) (sender : DeviceIdentity libraries.toLibraries) (nonce : UInt8) :
    List (Turn Arrival Tick) :=
  submission index .requests (posted .req requestWire sender
    { request with
      deviceKid := sender.kid
      x25519Pub := sender.x25519Pub
      ed25519Pub := sender.ed25519Pub } 1001 nonce) 1001 5

def refusal : GrantMsg := ⟨request.nonce, none, none, none, none, 0, 1002⟩

def refusalBody : Bytes := posted .grant grantWire rival refusal 1002 9

-- A device asks and is about to be answered.
def answering : List (Turn Arrival Tick) :=
  announcing 0 device 5 ++ announcing 1 rival 6 ++ requesting 2 device 7 ++
    submission 3 .grants refusalBody 1002 1

-- In between, another one asks with the nonce of its request.
def redirecting : List (Turn Arrival Tick) :=
  announcing 0 device 5 ++ announcing 1 rival 6 ++ requesting 2 device 7 ++ requesting 3 rival 8 ++
    submission 4 .grants refusalBody 1002 1

theorem redirecting_forward : Forward (redirecting ++ [.resume 4 (tick 1003)]) := by
  unfold Forward
  decide +kernel

theorem answering_forward : Forward (answering ++ .resume 3 (tick 1003) :: [.resume 3 (tick 1003)]) := by
  unfold Forward
  decide +kernel

-- The answer is about to be stored, the device has asked, and yet it is not stored for it.
theorem redirecting_run :
    (final (Server.turn libraries) redirecting Server.start).threads[4]? =
      some (.routing refusal refusalBody) ∧
    (refusal.requestNonce, device.kid, (tick 1001).now) ∈
      asks (trace (Server.turn libraries) redirecting Server.start) ∧
    (Server.turn libraries (final (Server.turn libraries) redirecting Server.start)
      (.resume 4 (tick 1003))).2.threads[4]? ≠
        some (.queueing [.device device.kid] .grant refusalBody (.replicate 16 0)) := by
  decide +kernel

theorem answering_run :
    (final (Server.turn libraries) answering Server.start).threads[3]? =
      some (.routing refusal refusalBody) ∧
    (refusal.requestNonce, device.kid, (tick 1001).now) ∈
      asks (trace (Server.turn libraries) answering Server.start) ∧
    lastAsked refusal.requestNonce (trace (Server.turn libraries) answering Server.start) =
      some (device.kid, (tick 1001).now) := by
  decide +kernel

theorem answer_redirected :
    ¬∀ (L : RelayLibraries) (turns : List (Turn Arrival Tick)), Forward turns →
      ∀ before index tick after grant body, turns = before ++ .resume index tick :: after →
      (final (Server.turn L) before Server.start).threads[index]? = some (.routing grant body) →
      ∀ kid t, (grant.requestNonce, kid, t) ∈ asks (trace (Server.turn L) before Server.start) →
      tick.now.durationSince t < queueTtl →
      (Server.turn L (final (Server.turn L) before Server.start) (.resume index tick)).2.threads[index]? =
        some (.queueing [.device kid] .grant body (.replicate 16 0)) := by
  intro h
  obtain ⟨hthread, hasked, hother⟩ := redirecting_run
  exact hother (h libraries _ redirecting_forward redirecting 4 (tick 1003) [] refusal refusalBody rfl
    hthread device.kid (tick 1001).now hasked (by decide))

theorem answered : putBy 3 (trace (Server.turn libraries)
    (answering ++ .resume 3 (tick 1003) :: [.resume 3 (tick 1003)]) Server.start) =
      [(.device device.kid, .grant, refusalBody)] := by
  obtain ⟨hthread, hasked, hlast⟩ := answering_run
  have hreaches := answer_reaches_last_asker libraries _ answering_forward answering [.resume 3 (tick 1003)]
    3 (tick 1003) refusal refusalBody rfl hthread device.kid (tick 1001).now hasked (by decide)
  exact (hreaches.mpr ⟨(tick 1001).now, hlast⟩).2

end Reference

end Zbacs.Relay
