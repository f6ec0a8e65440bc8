import Zbacs.Relay.Refusals

namespace Zbacs.Relay

open Zbacs.Lib Zbacs.Proto

-- The course of one submission, from its arrival to the answer, whatever the other handlers do.

-- A handler went on like this: where it was, the time and what the relay was.
def Went (index : Nat) (log : List Served) (like : Handler → Instant → Zbacs.Relay → Prop) : Prop :=
  ∃ x ∈ log, ∃ h tick, stepOf x = some (index, h, tick) ∧ like h tick.now x.before.shared

instance {index : Nat} {log : List Served} {like : Handler → Instant → Zbacs.Relay → Prop}
    [∀ h now r, Decidable (like h now r)] : Decidable (Went index log like) :=
  decidable_of_iff (∃ x ∈ log, ∃ y ∈ stepOf x, y.1 = index ∧ like y.2.1 y.2.2.now x.before.shared) (by
    constructor
    · rintro ⟨x, hx, ⟨i, h, tick⟩, hstep, rfl, hlike⟩
      exact ⟨x, hx, h, tick, hstep, hlike⟩
    · rintro ⟨x, hx, h, tick, hstep, hlike⟩
      exact ⟨x, hx, (index, h, tick), hstep, rfl, hlike⟩)

def Handler.turnsAway : Handler → Bool
  | .replied ack => !ack.ok
  | _ => false

section Course

variable (L : RelayLibraries) (e : Endpoint) (body : Bytes)

-- Nothing in the message itself is in the way.
def Proper : Prop := ∀ signed, Signed.fromBytes L.toLibraries body = .ok signed →
  e.mislabelled L signed = false ∧ ∀ h, e.next L body signed = some h → h.turnsAway = false

-- The handler is about to queue the message, or to register the device.
def Endpoint.Delivers (h : Handler) : Prop :=
  match e with
  | .devices => ∃ signed a, Signed.fromBytes L.toLibraries body = .ok signed ∧
      L.announceCodec.decode signed.payload = .ok a ∧ h = announced signed a
  | .requests | .grants | .versions | .revocations =>
      ∃ target targets kind id, h = .queueing (target :: targets) kind body id

-- It arrives, and is not who the relay knows or not what it takes.
def Unfitting (why : Unfit) (h : Handler) (now : Instant) (r : Zbacs.Relay) : Prop :=
  h = .arrived (.post e body) ∧ originOf L e body now r = .error why

-- It arrives too large, not signed by its device or not recent.
def Spoilt (h : Handler) (now : Instant) (r : Zbacs.Relay) : Prop :=
  h = .arrived (.post e body) ∧ ∃ why, originOf L e body now r = .error why ∧ why ≠ .unknownDevice

-- It arrives when its device has no calls left.
def OutOfCalls (h : Handler) (now : Instant) (r : Zbacs.Relay) : Prop :=
  h = .arrived (.post e body) ∧ ∃ signed, originOf L e body now r = .ok signed ∧
    (r.takeQuota signed.kid now).1 = .error .rateLimited

-- It arrives when its nonce is remembered.
def Burnt (h : Handler) (now : Instant) (r : Zbacs.Relay) : Prop :=
  h = .arrived (.post e body) ∧ ∃ signed, originOf L e body now r = .ok signed ∧
    e.mislabelled L signed = false ∧ (r.takeQuota signed.kid now).1 = .ok () ∧
    (r.remembered now signed.nonce).isSome

-- It arrives and is let in.
def LetIn (h : Handler) (now : Instant) (r : Zbacs.Relay) : Prop :=
  h = .arrived (.post e body) ∧ ∃ signed, originOf L e body now r = .ok signed ∧
    r.remembered now signed.nonce = none

-- A revocation finds that nobody has asked about its file.
def Unheeded (h : Handler) (now : Instant) (r : Zbacs.Relay) : Prop :=
  ∃ revoke, h = .lookingUp revoke body ∧ (r.interested revoke.fid now).1 = []

-- A grant finds the device that asked with its nonce.
def Routable (h : Handler) (now : Instant) (r : Zbacs.Relay) : Prop :=
  ∃ grant kid, h = .routing grant body ∧ (r.routeFor grant.requestNonce now).1 = .ok kid

-- It finds none.
def Unroutable (h : Handler) (now : Instant) (r : Zbacs.Relay) : Prop :=
  ∃ grant why, h = .routing grant body ∧ (r.routeFor grant.requestNonce now).1 = .error why

-- What a submission is answered, and why.
inductive Answered (index : Nat) (log : List Served) : Ack → Prop where
  | unfit {why : Unfit} (h : Went index log (Unfitting L e body why)) :
      Answered index log (refuse (e.codeOf why))
  | mislabelled {signed : Signed} (hbody : Signed.fromBytes L.toLibraries body = .ok signed)
      (hlabel : e.mislabelled L signed = true) : Answered index log (refuse .malformed)
  | limited (h : Went index log (OutOfCalls L e body)) : Answered index log (refuse .rateLimited)
  | burnt (h : Went index log (Burnt L e body)) : Answered index log (refuse .replayed)
  -- not about the device that signed it, or without an owner
  | improper {signed : Signed} {code : ErrorCode}
      (hbody : Signed.fromBytes L.toLibraries body = .ok signed)
      (hnext : e.next L body signed = some (.replied (refuse code)))
      (hcode : code = .unauthenticated ∨ code = .malformed) : Answered index log (refuse code)
  | unrouted (hletIn : Went index log (LetIn L e body)) (he : e = .grants)
      (h : Went index log (Unroutable body)) : Answered index log (refuse .notFound)
  | accepted (hletIn : Went index log (LetIn L e body))
      (hrouted : e = .grants → Went index log (Routable body))
      (h : Went index log (fun h _ _ => e.Delivers L body h) ∨ Went index log (Unheeded body))
      (id : FixedBytes 16) : Answered index log (accept id)

-- Where its handler can be.
def OnCourse (index : Nat) (log : List Served) : Handler → Prop
  | .arrived arrival => arrival = .post e body
  | .announcing kid device => Went index log (LetIn L e body) ∧ e ≠ .grants ∧
      e.Delivers L body (.announcing kid device)
  | .remembering _ _ body' | .noting _ _ body' =>
      Went index log (LetIn L e body) ∧ e = .requests ∧ body' = body
  | .routing _ body' => Went index log (LetIn L e body) ∧ e = .grants ∧ body' = body
  | .lookingUp _ body' => Went index log (LetIn L e body) ∧ e = .revocations ∧ body' = body
  | .queueing targets _ body' _ => Went index log (LetIn L e body) ∧ e ≠ .devices ∧ body' = body ∧
      (e = .grants → Went index log (Routable body)) ∧ (targets = [] →
        Went index log (fun h _ _ => e.Delivers L body h) ∨ Went index log (Unheeded body))
  | .replied ack => Answered L e body index log ack
  | .handed _ => False

end Course

section Decide

variable {L : RelayLibraries} {e : Endpoint} {body : Bytes}

instance : Decidable (Proper L e body) :=
  decidable_of_iff ((Signed.fromBytes L.toLibraries body).toOption.all fun signed =>
    !e.mislabelled L signed && (e.next L body signed).all fun h => !h.turnsAway) (by
      simp [Proper, Option.all_eq_true, toOption_eq_some])

instance (h : Handler) (now : Instant) (r : Zbacs.Relay) : Decidable (Spoilt L e body h now r) :=
  decidable_of_iff (h = .arrived (.post e body) ∧ (originOf L e body now r).toOption = none ∧
    originOf L e body now r ≠ .error .unknownDevice) (by
      unfold Spoilt
      cases originOf L e body now r <;> simp [Except.toOption])

end Decide

section Steps

variable {L : RelayLibraries} {e : Endpoint} {body : Bytes} {index : Nat} {log : List Served}
  {like : Handler → Instant → Zbacs.Relay → Prop} {x : Served} {h : Handler} {tick : Tick}
  {r : Zbacs.Relay}

theorem Went.mono {log' : List Served} (hwent : Went index log like) (hsub : log ⊆ log') :
    Went index log' like := by
  obtain ⟨x, hx, hlike⟩ := hwent
  exact ⟨x, hsub hx, hlike⟩

theorem Went.last (hstep : stepOf x = some (index, h, tick)) (hlike : like h tick.now x.before.shared) :
    Went index (log ++ [x]) like :=
  ⟨x, List.mem_append_right _ (List.mem_singleton_self x), h, tick, hstep, hlike⟩

theorem Answered.mono {ack : Ack} {log' : List Served} (ha : Answered L e body index log ack)
    (hsub : log ⊆ log') : Answered L e body index log' ack := by
  cases ha with
  | unfit h => exact .unfit (h.mono hsub)
  | mislabelled hbody hlabel => exact .mislabelled hbody hlabel
  | limited h => exact .limited (h.mono hsub)
  | burnt h => exact .burnt (h.mono hsub)
  | improper hbody hnext hcode => exact .improper hbody hnext hcode
  | unrouted hletIn he h => exact .unrouted (hletIn.mono hsub) he (h.mono hsub)
  | accepted hletIn hrouted h id =>
      exact .accepted (hletIn.mono hsub) (fun he => (hrouted he).mono hsub)
        (h.imp (·.mono hsub) (·.mono hsub)) id

theorem OnCourse.mono {log' : List Served} (hc : OnCourse L e body index log h) (hsub : log ⊆ log') :
    OnCourse L e body index log' h := by
  cases h with
  | arrived => exact hc
  | announcing | remembering | noting | routing | lookingUp => exact ⟨hc.1.mono hsub, hc.2⟩
  | queueing targets kind body' id =>
      obtain ⟨hletIn, he, hbody, hrouted, hdone⟩ := hc
      exact ⟨hletIn.mono hsub, he, hbody, fun he => (hrouted he).mono hsub,
        fun hnil => (hdone hnil).imp (·.mono hsub) (·.mono hsub)⟩
  | replied => exact Answered.mono hc hsub
  | handed => exact hc

theorem fromBytes_of_originOf {now : Instant} {signed : Signed}
    (horigin : originOf L e body now r = .ok signed) :
    Signed.fromBytes L.toLibraries body = .ok signed := by
  unfold originOf at horigin
  split_ifs at horigin
  split at horigin
  · cases horigin
  · rename_i hbody
    split at horigin
    · cases horigin
    · split at horigin
      · cases horigin
      · cases horigin
        exact hbody

-- Let in, the handler is on its way, or the message itself is in the way.
theorem next_onCourse {signed : Signed} (hletIn : Went index log (LetIn L e body))
    (hbody : Signed.fromBytes L.toLibraries body = .ok signed)
    (hnext : e.next L body signed = some h) : OnCourse L e body index log h := by
  have hwhole := hnext
  cases e with
  | devices =>
      obtain ⟨a, ha, rfl⟩ := Option.map_eq_some_iff.mp hnext
      have hpayload : L.announceCodec.decode signed.payload = .ok a := toOption_eq_some.mp ha
      exact ⟨hletIn, by decide, signed, a, hbody, hpayload, rfl⟩
  | requests =>
      obtain ⟨request, -, rfl⟩ := Option.map_eq_some_iff.mp hnext
      unfold requested at hwhole ⊢
      split_ifs at hwhole ⊢
      · exact Answered.improper hbody hwhole (.inl rfl)
      · exact Answered.improper hbody hwhole (.inr rfl)
      · exact ⟨hletIn, rfl, rfl⟩
  | grants =>
      obtain ⟨grant, -, rfl⟩ := Option.map_eq_some_iff.mp hnext
      exact ⟨hletIn, rfl, rfl⟩
  | versions =>
      obtain ⟨version, -, rfl⟩ := Option.map_eq_some_iff.mp hnext
      unfold versioned at hwhole ⊢
      split_ifs at hwhole ⊢
      · exact Answered.improper hbody hwhole (.inl rfl)
      · exact Answered.improper hbody hwhole (.inr rfl)
      · exact ⟨hletIn, by decide, rfl, Endpoint.noConfusion, (absurd · (List.cons_ne_nil _ _))⟩
  | revocations =>
      obtain ⟨revoke, -, rfl⟩ := Option.map_eq_some_iff.mp hnext
      exact ⟨hletIn, rfl, rfl⟩

theorem arrival_onCourse (hstep : stepOf x = some (index, .arrived (.post e body), tick)) :
    OnCourse L e body index (log ++ [x])
      ((Handler.arrived (.post e body)).run L tick x.before.shared).2.1 := by
  have hwelcome := @arrived_welcome L x.before.shared e body tick
  generalize (Handler.arrived (.post e body)).run L tick x.before.shared = out at hwelcome ⊢
  cases hwelcome with
  | unfit horigin => exact Answered.unfit (.last hstep ⟨rfl, horigin⟩)
  | mislabelled horigin hlabel => exact Answered.mislabelled (fromBytes_of_originOf horigin) hlabel
  | limited horigin hquota => exact Answered.limited (.last hstep ⟨rfl, _, horigin, hquota⟩)
  | burnt horigin hlabel hquota hseen =>
      exact Answered.burnt (.last hstep ⟨rfl, _, horigin, hlabel, hquota, hseen⟩)
  | letIn horigin hlabel hquota hfresh hnext =>
      exact next_onCourse (.last hstep ⟨rfl, _, horigin, hfresh⟩) (fromBytes_of_originOf horigin) hnext

theorem routeFor_error {nonce : FixedBytes 16} {now : Instant} {why : Refusal}
    (h : (r.routeFor nonce now).1 = .error why) : why = .unknownRequest := by
  unfold Zbacs.Relay.routeFor at h
  dsimp only at h
  split at h
  · cases h
    rfl
  · cases h

-- A step of the handler itself.
theorem OnCourse.step (hc : OnCourse L e body index log h) (hstep : stepOf x = some (index, h, tick)) :
    OnCourse L e body index (log ++ [x]) (h.run L tick x.before.shared).2.1 := by
  have hsub : log ⊆ log ++ [x] := List.subset_append_left _ _
  cases h with
  | arrived arrival =>
      obtain rfl := hc
      exact arrival_onCourse hstep
  | announcing kid device =>
      obtain ⟨hletIn, he, hdelivers⟩ := hc
      exact Answered.accepted (hletIn.mono hsub) (absurd · he) (.inl (.last hstep hdelivers)) kid
  | remembering kid request body' => exact ⟨hc.1.mono hsub, hc.2⟩
  | noting kid request body' =>
      obtain ⟨hletIn, rfl, rfl⟩ := hc
      exact ⟨hletIn.mono hsub, by decide, rfl, Endpoint.noConfusion, (absurd · (List.cons_ne_nil _ _))⟩
  | routing grant body' =>
      obtain ⟨hletIn, rfl, rfl⟩ := hc
      obtain ⟨kid, hroute, hrun⟩ | ⟨why, hroute, hrun⟩ := @routing_cases L grant body' tick x.before.shared
      · rw [hrun]
        exact ⟨hletIn.mono hsub, by decide, rfl, fun _ => .last hstep ⟨grant, kid, rfl, hroute⟩,
          (absurd · (List.cons_ne_nil _ _))⟩
      · rw [hrun, routeFor_error hroute]
        exact Answered.unrouted (hletIn.mono hsub) rfl (.last hstep ⟨grant, why, rfl, hroute⟩)
  | lookingUp revoke body' =>
      obtain ⟨hletIn, rfl, rfl⟩ := hc
      refine ⟨hletIn.mono hsub, by decide, rfl, Endpoint.noConfusion, fun hnil => .inr ?_⟩
      exact .last hstep ⟨revoke, rfl, List.map_eq_nil_iff.mp hnil⟩
  | queueing targets kind body' id =>
      obtain ⟨hletIn, he, rfl, hrouted, hdone⟩ := hc
      cases targets with
      | nil =>
          exact Answered.accepted (hletIn.mono hsub) (fun he => (hrouted he).mono hsub)
            ((hdone rfl).imp (·.mono hsub) (·.mono hsub)) id
      | cons target targets =>
          have hdelivers : e.Delivers L body' (.queueing (target :: targets) kind body' id) := by
            cases e with
            | devices => exact absurd rfl he
            | requests | grants | versions | revocations => exact ⟨_, _, _, _, rfl⟩
          exact ⟨hletIn.mono hsub, he, rfl, fun he => (hrouted he).mono hsub,
            fun _ => .inl (.last hstep hdelivers)⟩
  | replied ack => exact Answered.mono hc hsub
  | handed => exact hc.elim

-- Over a run, with steps of any handlers.
theorem onCourse_final {s : Server} (hthread : s.threads[index]? = some h)
    (hc : OnCourse L e body index log h) (turns : List (Turn Arrival Tick)) :
    ∃ h', (final (Server.turn L) turns s).threads[index]? = some h' ∧
      OnCourse L e body index (log ++ trace (Server.turn L) turns s) h' := by
  induction turns generalizing s h log with
  | nil => exact ⟨h, hthread, by rwa [trace, List.append_nil]⟩
  | cons a turns ih =>
      rw [final, trace, ← List.singleton_append, ← List.append_assoc]
      by_cases hmine : ∃ tick, a = .resume index tick
      · obtain ⟨tick, rfl⟩ := hmine
        exact ih (turn_mine (L := L) hthread tick).2
          (hc.step (x := taken (Server.turn L) s _) (by simp [stepOf, taken, hthread]))
      · exact ih (turn_others (L := L) hthread (not_exists.mp hmine)).2.2
          (hc.mono (List.subset_append_left _ _))

-- What the handler answers to what it found.

theorem unfit_run {why : Unfit} (hunfit : Unfitting L e body why h tick.now r) :
    (h.run L tick r).2.1 = .replied (refuse (e.codeOf why)) := by
  obtain ⟨rfl, horigin⟩ := hunfit
  have hwelcome := @arrived_welcome L r e body tick
  generalize (Handler.arrived (.post e body)).run L tick r = out at hwelcome ⊢
  cases hwelcome with
  | unfit horigin' =>
      cases horigin.symm.trans horigin'
      rfl
  | mislabelled horigin' | limited horigin' | burnt horigin' | letIn horigin' =>
      cases horigin.symm.trans horigin'

theorem busy_run (hproper : Proper L e body) (hbusy : OutOfCalls L e body h tick.now r) :
    (h.run L tick r).2.1 = .replied (refuse .rateLimited) := by
  obtain ⟨rfl, signed, horigin, hquota⟩ := hbusy
  have hwelcome := @arrived_welcome L r e body tick
  generalize (Handler.arrived (.post e body)).run L tick r = out at hwelcome ⊢
  cases hwelcome with
  | limited => rfl
  | unfit horigin' => cases horigin.symm.trans horigin'
  | mislabelled horigin' hlabel =>
      rw [(hproper _ (fromBytes_of_originOf horigin')).1] at hlabel
      cases hlabel
  | burnt horigin' _ hquota' | letIn horigin' _ hquota' =>
      cases horigin.symm.trans horigin'
      cases hquota.symm.trans hquota'

theorem burnt_run (hburnt : Burnt L e body h tick.now r) :
    (h.run L tick r).2.1 = .replied (refuse .replayed) := by
  obtain ⟨rfl, signed, horigin, hlabel, hquota, hseen⟩ := hburnt
  have hwelcome := @arrived_welcome L r e body tick
  generalize (Handler.arrived (.post e body)).run L tick r = out at hwelcome ⊢
  cases hwelcome with
  | unfit horigin' => cases horigin.symm.trans horigin'
  | mislabelled horigin' hlabel' =>
      cases horigin.symm.trans horigin'
      cases hlabel.symm.trans hlabel'
  | limited horigin' hquota' =>
      cases horigin.symm.trans horigin'
      cases hquota.symm.trans hquota'
  | burnt => rfl
  | letIn horigin' _ _ hfresh =>
      cases horigin.symm.trans horigin'
      rw [hfresh] at hseen
      cases hseen

theorem unroutable_run (hlost : Unroutable body h tick.now r) :
    (h.run L tick r).2.1 = .replied (refuse .notFound) := by
  obtain ⟨grant, why, rfl, hroute⟩ := hlost
  obtain ⟨kid, hkid, -⟩ | ⟨why', hwhy, hrun⟩ := @routing_cases L grant body tick r
  · cases hkid.symm.trans hroute
  · rw [hrun, routeFor_error hwhy]
    rfl

-- A handler that went on like this and has come to an answer.
theorem went_then {s : Server} {turns : List (Turn Arrival Tick)}
    (hwent : Went index (trace (Server.turn L) turns s) like) :
    ∃ h tick r s' after, like h tick.now r ∧ s'.threads[index]? = some (h.run L tick r).2.1 ∧
      final (Server.turn L) turns s = final (Server.turn L) after s' := by
  obtain ⟨x, hx, h, tick, hstep, hlike⟩ := hwent
  obtain ⟨before, after, rfl, hbefore, hthread, hafter, -⟩ := exists_of_step hx hstep
  refine ⟨h, tick, x.before.shared, _, after, hlike, (turn_mine (L := L) hthread tick).2, ?_⟩
  rw [final_append, final, hbefore]

-- A handler that has nothing left to queue.
def Handler.finished : Handler → Bool
  | .replied _ | .handed _ | .queueing [] _ _ _ => true
  | _ => false

theorem run_finished (hfinished : h.finished = true) : (h.run L tick r).2.1.finished = true := by
  cases h with
  | queueing targets kind body' id =>
      cases targets with
      | nil => rfl
      | cons target targets => cases hfinished
  | replied | handed => rfl
  | arrived | announcing | remembering | noting | routing | lookingUp => cases hfinished

theorem run_late (hlate : h.early = false) : (h.run L tick r).2.1.early = false := by
  refine Bool.eq_false_iff.mpr fun hearly => ?_
  rw [(run_early hearly).1] at hlate
  cases hlate

-- It has nothing to deliver yet.
def Handler.unready : Handler → Bool
  | .arrived _ | .lookingUp _ _ => true
  | _ => false

theorem early_of_unready (hunready : h.unready = true) : h.early = true := by
  cases h with
  | arrived | lookingUp => rfl
  | announcing | remembering | noting | routing | queueing | replied | handed => cases hunready

theorem Endpoint.Delivers.stage (hdelivers : e.Delivers L body h) :
    h.unready = false ∧ h.finished = false ∧ ∀ tick r, (h.run L tick r).2.1.early = false := by
  cases e with
  | devices =>
      obtain ⟨signed, a, -, -, rfl⟩ := hdelivers
      exact ⟨rfl, rfl, fun _ _ => rfl⟩
  | requests | grants | versions | revocations =>
      obtain ⟨target, targets, kind, id, rfl⟩ := hdelivers
      exact ⟨rfl, rfl, fun _ _ => rfl⟩

-- A handler that turns out to have nothing to deliver delivers neither before nor after.
theorem not_delivers {s : Server} {turns : List (Turn Arrival Tick)}
    (hwent : Went index (trace (Server.turn L) turns s) like)
    (hlike : ∀ h tick r, like h tick.now r →
      h.unready = true ∧ (Handler.run L h tick r).2.1.finished = true) :
    ¬Went index (trace (Server.turn L) turns s) fun h _ _ => e.Delivers L body h := by
  obtain ⟨x, hx, h, tick, hstep, hfound⟩ := hwent
  obtain ⟨hunready, hfinished⟩ := hlike h tick _ hfound
  obtain ⟨before, after, rfl, hbefore, hthread, -⟩ := exists_of_step hx hstep
  rw [hbefore] at hthread hfinished
  rintro ⟨y, hy, h', tick', hstep', hdelivers⟩
  obtain ⟨hready, hunfinished, hlate⟩ := hdelivers.stage
  rw [trace_append, trace, List.mem_append, List.mem_cons] at hy
  rcases hy with hsooner | rfl | hlater
  · -- it would be past the point where it had nothing yet
    obtain ⟨pre, post, rfl, hbefore', hthread', -⟩ := exists_of_step hsooner hstep'
    obtain ⟨h'', hfinal, hpast⟩ := thread_final (L := L) (p := fun h => h.early = false)
      (fun _ _ _ => run_late) (turn_mine (L := L) hthread' tick').2 (hlate _ _) post
    rw [final_append, final, ← hbefore', hfinal] at hthread
    cases hthread
    rw [early_of_unready hunready] at hpast
    cases hpast
  · simp only [stepOf, taken, hthread] at hstep'
    cases hstep'
    rw [hunready] at hready
    cases hready
  · obtain ⟨pre, post, rfl, hbefore', hthread', -⟩ := exists_of_step hlater hstep'
    obtain ⟨h'', hfinal, hdone⟩ := thread_final (L := L) (p := fun h => h.finished = true)
      (fun _ _ _ => run_finished) (turn_mine (L := L) hthread tick).2 hfinished pre
    rw [hbefore', hfinal] at hthread'
    cases hthread'
    rw [hunfinished] at hdone
    cases hdone

end Steps

end Zbacs.Relay
