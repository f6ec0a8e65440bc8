import Zbacs.Relay.Revokes

namespace Zbacs.Relay

open Zbacs.Lib Zbacs.Proto

-- What is in the way of a submission before its quota and its nonce are looked at.
inductive Unfit where
  | tooLarge
  | unreadable (why : ProtoError)
  -- no device is registered under the kid, or an announcement carries no key
  | unknownDevice
  -- another kind, too old or too new, a bad signature, a payload that does not decode
  | unverified (why : ProtoError)
deriving DecidableEq

-- The code it is refused with.
def Endpoint.codeOf (e : Endpoint) : Unfit → ErrorCode
  | .tooLarge => .tooLarge
  | .unreadable why => if e = .devices then .malformed else why.code
  | .unknownDevice => if e = .devices then .malformed else .unknownDevice
  | .unverified why => if e = .devices then .unauthenticated else why.code

section Origin

variable (L : RelayLibraries)

-- The key a submission has to be signed with: the registered one, or the one it announces.
def Endpoint.keyOf (e : Endpoint) (signed : Signed) (r : Zbacs.Relay) : Option (FixedBytes 32) :=
  match e with
  | .devices => (L.announceCodec.decode signed.payload).toOption.map DeviceAnnounce.ed25519Pub
  | .requests | .grants | .versions | .revocations => (r.devices signed.kid).map Device.ed25519Pub

def Endpoint.verify (e : Endpoint) (signed : Signed) (key : FixedBytes 32) (now : UInt64) :
    Except ProtoError Unit :=
  match e with
  | .devices => (signed.verify L.toLibraries .announce L.announceCodec key now).map fun _ => ()
  | .requests => (signed.verify L.toLibraries .req L.requestCodec key now).map fun _ => ()
  | .grants => (signed.verify L.toLibraries .grant L.grantCodec key now).map fun _ => ()
  | .versions => (signed.verify L.toLibraries .version L.versionCodec key now).map fun _ => ()
  | .revocations => (signed.verify L.toLibraries .revoke L.revokeCodec key now).map fun _ => ()

-- Who a submission is from.
def originOf (e : Endpoint) (body : Bytes) (now : Instant) (r : Zbacs.Relay) : Except Unfit Signed :=
  if body.length > maxBodyLen then .error .tooLarge
  else match Signed.fromBytes L.toLibraries body with
    | .error why => .error (.unreadable why)
    | .ok signed => match e.keyOf L signed r with
      | none => .error .unknownDevice
      | some key => match e.verify L signed key now.unix with
        | .error why => .error (.unverified why)
        | .ok () => .ok signed

end Origin

-- A handler that will not refuse any more.
def Handler.obliging : Handler → Bool
  | .announcing .. | .remembering .. | .noting .. | .lookingUp .. | .queueing .. | .handed _ => true
  | .replied ack => ack.ok
  | .arrived _ | .routing .. => false

-- The relay but for nonces, quotas and routes that are too old.
structure Intact (now : Instant) (r r' : Zbacs.Relay) : Prop where
  queues : r'.queues = r.queues
  devices : r'.devices = r.devices
  interests : r'.interests = r.interests
  routes : ∀ n, r'.requestRoutes n = r.requestRoutes n ∨ (r'.requestRoutes n = none ∧
    ∃ kid since, r.requestRoutes n = some (kid, since) ∧ queueTtl ≤ now.durationSince since)

-- What the quota and the nonce of one submission change.
structure Metered (kid nonce : FixedBytes 16) (now : Instant) (r r' : Zbacs.Relay) : Prop where
  queues : r'.queues = r.queues
  devices : r'.devices = r.devices
  interests : r'.interests = r.interests
  routes : r'.requestRoutes = r.requestRoutes
  calls : ∀ k ≠ kid, r'.calls k = r.calls k
  nonces : ∀ n ≠ nonce, ∀ t, r'.nonces n = some t → r.nonces n = some t

section Metered

variable {L : RelayLibraries} {now : Instant} {r r' r'' : Zbacs.Relay} {kid nonce : FixedBytes 16}

theorem takeQuota_metered (kid nonce : FixedBytes 16) (r : Zbacs.Relay) :
    Metered kid nonce now r (r.takeQuota kid now).2 := by
  unfold Zbacs.Relay.takeQuota
  dsimp only
  split_ifs <;>
    exact ⟨rfl, rfl, rfl, rfl, fun k hk => Function.update_of_ne hk .., fun _ _ _ h => h⟩

theorem takeNonce_metered (kid nonce : FixedBytes 16) (r : Zbacs.Relay) :
    Metered kid nonce now r (r.takeNonce nonce now).2 := by
  have hremembered : ∀ n t, r.remembered now n = some t → r.nonces n = some t := by
    intro n t h
    exact (Option.filter_eq_some_iff.mp h).1
  unfold Zbacs.Relay.takeNonce
  dsimp only
  split_ifs
  · exact ⟨rfl, rfl, rfl, rfl, fun _ _ => rfl, fun n _ t h => hremembered n t h⟩
  · refine ⟨rfl, rfl, rfl, rfl, fun _ _ => rfl, fun n hn t h => hremembered n t ?_⟩
    dsimp only at h
    rwa [Function.update_of_ne hn] at h

theorem Metered.trans (h : Metered kid nonce now r r') (h' : Metered kid nonce now r' r'') :
    Metered kid nonce now r r'' :=
  ⟨h'.queues.trans h.queues, h'.devices.trans h.devices, h'.interests.trans h.interests,
    h'.routes.trans h.routes, fun k hk => (h'.calls k hk).trans (h.calls k hk),
    fun n hn t hnonce => h.nonces n hn t (h'.nonces n hn t hnonce)⟩

theorem takeQuotaAndNonce_metered (kid nonce : FixedBytes 16) (r : Zbacs.Relay) :
    Metered kid nonce now r (takeQuotaAndNonce kid nonce now r).2 := by
  have hquota := @takeQuota_metered now kid nonce r
  unfold takeQuotaAndNonce
  rcases hcalls : r.takeQuota kid now with ⟨result, r₁⟩
  rw [hcalls] at hquota
  cases result with
  | error e => exact hquota
  | ok =>
      have hnonce := @takeNonce_metered now kid nonce r₁
      dsimp only
      rcases hseen : r₁.takeNonce nonce now with ⟨result, r₂⟩
      rw [hseen] at hnonce
      cases result <;> exact hquota.trans hnonce

theorem Metered.intact (h : Metered kid nonce now r r') : Intact now r r' :=
  ⟨h.queues, h.devices, h.interests, fun n => .inl (congrFun h.routes n)⟩

theorem Intact.refl (now : Instant) (r : Zbacs.Relay) : Intact now r r :=
  ⟨rfl, rfl, rfl, fun _ => .inl rfl⟩

end Metered

-- What becomes of a submission when it arrives.
inductive Checked (L : RelayLibraries) (e : Endpoint) (body : Bytes) (now : Instant)
    (r : Zbacs.Relay) : List Passed × Handler × Zbacs.Relay → Prop where
  | unfit {why : Unfit} (horigin : originOf L e body now r = .error why) :
      Checked L e body now r ([], .replied (refuse (e.codeOf why)), r)
  -- an announcement with too long a label
  | refused {signed : Signed} (horigin : originOf L e body now r = .ok signed) (code : ErrorCode) :
      Checked L e body now r ([], .replied (refuse code), r)
  | metered {signed : Signed} (horigin : originOf L e body now r = .ok signed) (passed : List Passed)
      (handler : Handler) : Checked L e body now r
        (passed, handler, (takeQuotaAndNonce signed.kid signed.nonce now r).2)

-- The label of an announcement is too long.
def Endpoint.mislabelled (L : RelayLibraries) (e : Endpoint) (signed : Signed) : Bool :=
  match e with
  | .devices => (L.announceCodec.decode signed.payload).toOption.any fun a =>
      a.label.any fun label => label.utf8ByteSize > 32
  | .requests | .grants | .versions | .revocations => false

-- What the handler of a submission does once it is let in.
def Endpoint.next (L : RelayLibraries) (e : Endpoint) (body : Bytes) (signed : Signed) : Option Handler :=
  match e with
  | .devices => (L.announceCodec.decode signed.payload).toOption.map (announced signed)
  | .requests => (L.requestCodec.decode signed.payload).toOption.map (requested L body signed)
  | .grants => (L.grantCodec.decode signed.payload).toOption.map fun grant => .routing grant body
  | .versions => (L.versionCodec.decode signed.payload).toOption.map (versioned L body signed)
  | .revocations => (L.revokeCodec.decode signed.payload).toOption.map fun revoke => .lookingUp revoke body

-- How a submission is met: the same, with what it depends on.
inductive Welcome (L : RelayLibraries) (e : Endpoint) (body : Bytes) (now : Instant) (r : Zbacs.Relay) :
    List Passed × Handler × Zbacs.Relay → Prop where
  | unfit {why : Unfit} (horigin : originOf L e body now r = .error why) :
      Welcome L e body now r ([], .replied (refuse (e.codeOf why)), r)
  | mislabelled {signed : Signed} (horigin : originOf L e body now r = .ok signed)
      (hlabel : e.mislabelled L signed = true) :
      Welcome L e body now r ([], .replied (refuse .malformed), r)
  | limited {signed : Signed} (horigin : originOf L e body now r = .ok signed)
      (hquota : (r.takeQuota signed.kid now).1 = .error .rateLimited) :
      Welcome L e body now r ([], .replied (refuse .rateLimited),
        (takeQuotaAndNonce signed.kid signed.nonce now r).2)
  | burnt {signed : Signed} (horigin : originOf L e body now r = .ok signed)
      (hlabel : e.mislabelled L signed = false) (hquota : (r.takeQuota signed.kid now).1 = .ok ())
      (hseen : (r.remembered now signed.nonce).isSome) :
      Welcome L e body now r ([], .replied (refuse .replayed),
        (takeQuotaAndNonce signed.kid signed.nonce now r).2)
  | letIn {signed : Signed} {h : Handler} (horigin : originOf L e body now r = .ok signed)
      (hlabel : e.mislabelled L signed = false) (hquota : (r.takeQuota signed.kid now).1 = .ok ())
      (hfresh : r.remembered now signed.nonce = none) (hnext : e.next L body signed = some h) :
      Welcome L e body now r ([⟨signed, now⟩], h,
        (takeQuotaAndNonce signed.kid signed.nonce now r).2)

section Arrivals

variable {L : RelayLibraries} {now : Instant} {r : Zbacs.Relay} {e : Endpoint} {body : Bytes}

theorem takeQuotaAndNonce_cases (kid nonce : FixedBytes 16) (now : Instant) (r : Zbacs.Relay) :
    ((r.takeQuota kid now).1 = .error .rateLimited ∧
      (takeQuotaAndNonce kid nonce now r).1 = .error .rateLimited) ∨
    ((r.takeQuota kid now).1 = .ok () ∧ (r.remembered now nonce).isSome ∧
      (takeQuotaAndNonce kid nonce now r).1 = .error .replayed) ∨
    ((r.takeQuota kid now).1 = .ok () ∧ r.remembered now nonce = none ∧
      (takeQuotaAndNonce kid nonce now r).1 = .ok ()) := by
  have hnonces : (r.takeQuota kid now).2.nonces = r.nonces := takeQuota_nonces kid
  have hlimited : ∀ why, (r.takeQuota kid now).1 = .error why → why = .rateLimited := by
    intro why h
    unfold Zbacs.Relay.takeQuota at h
    dsimp only at h
    split_ifs at h
    cases h
    rfl
  unfold takeQuotaAndNonce
  rcases hcalls : r.takeQuota kid now with ⟨result, r₁⟩
  rw [hcalls] at hnonces hlimited
  have hsame : r₁.remembered now = r.remembered now := remembered_congr hnonces
  cases result with
  | error why =>
      obtain rfl := hlimited why rfl
      exact .inl ⟨rfl, rfl⟩
  | ok =>
      dsimp only [Zbacs.Relay.takeNonce]
      rw [← hsame]
      cases hseen : r₁.remembered now nonce with
      | none => exact .inr (.inr ⟨rfl, rfl, by rw [Option.isSome_none, if_neg Bool.false_ne_true]⟩)
      | some seen => exact .inr (.inl ⟨rfl, rfl, by rw [Option.isSome_some, if_pos rfl]; rfl⟩)

theorem continueWith_welcome {α : Type} (next : Signed → α → Handler) {signed : Signed} {payload : α}
    (horigin : originOf L e body now r = .ok signed) (hlabel : e.mislabelled L signed = false)
    (hnext : e.next L body signed = some (next signed payload)) : Welcome L e body now r
      (continueWith next now (match takeQuotaAndNonce signed.kid signed.nonce now r with
        | (.error e, r) => (.error e, r)
        | (.ok (), r) => (.ok (signed, payload), r))) := by
  have hlimited := @Welcome.limited L e body now r signed horigin
  have hburnt := @Welcome.burnt L e body now r signed horigin hlabel
  have hletIn := fun hquota hfresh =>
    @Welcome.letIn L e body now r signed _ horigin hlabel hquota hfresh hnext
  have hcases := takeQuotaAndNonce_cases signed.kid signed.nonce now r
  rcases hout : takeQuotaAndNonce signed.kid signed.nonce now r with ⟨result, r'⟩
  rw [hout] at hlimited hburnt hletIn hcases
  rcases hcases with ⟨hquota, rfl⟩ | ⟨hquota, hseen, rfl⟩ | ⟨hquota, hfresh, rfl⟩
  · exact hlimited hquota
  · exact hburnt hquota hseen
  · exact hletIn hquota hfresh

theorem authenticate_welcome {α : Type} {kind : Kind} {codec : Codec α} (next : Signed → α → Handler)
    (he : e ≠ .devices)
    (hkey : ∀ signed, e.keyOf L signed r = (r.devices signed.kid).map Device.ed25519Pub)
    (hverify : ∀ signed key, e.verify L signed key now.unix =
      (signed.verify L.toLibraries kind codec key now.unix).map fun _ => ())
    (hnext : ∀ signed, e.next L body signed = (codec.decode signed.payload).toOption.map (next signed)) :
    Welcome L e body now r (continueWith next now (authenticate L kind codec body now r)) := by
  have hlabel : ∀ signed, e.mislabelled L signed = false := by
    intro signed
    cases e with
    | devices => exact absurd rfl he
    | requests | grants | versions | revocations => rfl
  unfold authenticate
  have horigin := originOf.eq_1 L e body now r
  by_cases hlength : body.length > maxBodyLen
  · rw [if_pos hlength] at horigin ⊢
    exact .unfit horigin
  rw [if_neg hlength] at horigin ⊢
  cases hbody : Signed.fromBytes L.toLibraries body with
  | error why =>
      rw [hbody] at horigin
      simpa [Endpoint.codeOf, he, continueWith] using Welcome.unfit horigin
  | ok signed =>
      rw [hbody] at horigin
      dsimp only at horigin ⊢
      rw [hkey] at horigin
      cases hdevice : r.devices signed.kid with
      | none =>
          rw [hdevice] at horigin
          simpa [Endpoint.codeOf, he, continueWith] using Welcome.unfit horigin
      | some device =>
          rw [hdevice] at horigin
          dsimp only [Option.map_some] at horigin ⊢
          rw [hverify] at horigin
          rcases hsigned : signed.verify L.toLibraries kind codec device.ed25519Pub now.unix with
            why | ⟨payload, nonce⟩
          · rw [hsigned] at horigin
            simpa [Endpoint.codeOf, he, continueWith] using Welcome.unfit horigin
          · rw [hsigned] at horigin
            obtain ⟨rfl, -, hpayload, -⟩ := verify_reads hsigned
            refine continueWith_welcome next horigin (hlabel signed) ?_
            rw [hnext, hpayload]
            rfl

theorem authenticateAnnounce_welcome :
    Welcome L .devices body now r (continueWith announced now (authenticateAnnounce L body now r)) := by
  unfold authenticateAnnounce
  have horigin := originOf.eq_1 L .devices body now r
  by_cases hlength : body.length > maxBodyLen
  · rw [if_pos hlength] at horigin ⊢
    exact .unfit horigin
  rw [if_neg hlength] at horigin ⊢
  cases hbody : Signed.fromBytes L.toLibraries body with
  | error why =>
      rw [hbody] at horigin
      exact .unfit horigin
  | ok signed =>
      rw [hbody] at horigin
      dsimp only [Endpoint.keyOf, Endpoint.verify] at horigin ⊢
      cases hclaimed : L.announceCodec.decode signed.payload with
      | error why =>
          rw [hclaimed] at horigin
          exact .unfit horigin
      | ok claimed =>
          rw [hclaimed] at horigin
          dsimp only [Except.toOption, Option.map_some] at horigin ⊢
          rcases hsigned : signed.verify L.toLibraries .announce L.announceCodec
            claimed.ed25519Pub now.unix with why | ⟨announce, nonce⟩
          · rw [hsigned] at horigin
            exact .unfit horigin
          · rw [hsigned] at horigin
            obtain ⟨rfl, -, hpayload, hkid⟩ := verify_reads hsigned
            obtain rfl := Except.ok.inj (hclaimed.symm.trans hpayload)
            dsimp only at horigin ⊢
            have hmislabelled : Endpoint.devices.mislabelled L signed =
                claimed.label.any fun label => label.utf8ByteSize > 32 := by
              rw [Endpoint.mislabelled, hclaimed]
              rfl
            rw [if_neg (not_not.mpr hkid)]
            split_ifs with hlabel
            · exact .mislabelled horigin (hmislabelled.trans hlabel)
            · refine continueWith_welcome announced horigin
                (hmislabelled.trans (Bool.eq_false_iff.mpr hlabel)) ?_
              rw [Endpoint.next, hclaimed]
              rfl

theorem receive_welcome (e : Endpoint) (body : Bytes) :
    Welcome L e body now r (receive L (.post e body) now r) := by
  cases e with
  | devices => exact authenticateAnnounce_welcome
  | requests =>
      exact authenticate_welcome (requested L body) (by decide) (fun _ => rfl) (fun _ _ => rfl)
        fun _ => rfl
  | grants => exact authenticate_welcome _ (by decide) (fun _ => rfl) (fun _ _ => rfl) fun _ => rfl
  | versions =>
      exact authenticate_welcome (versioned L body) (by decide) (fun _ => rfl) (fun _ _ => rfl)
        fun _ => rfl
  | revocations => exact authenticate_welcome _ (by decide) (fun _ => rfl) (fun _ _ => rfl) fun _ => rfl

theorem Welcome.checked {out : List Passed × Handler × Zbacs.Relay} (h : Welcome L e body now r out) :
    Checked L e body now r out := by
  cases h with
  | unfit horigin => exact .unfit horigin
  | mislabelled horigin => exact .refused horigin _
  | limited horigin | burnt horigin | letIn horigin => exact .metered horigin _ _

theorem receive_checked (e : Endpoint) (body : Bytes) :
    Checked L e body now r (receive L (.post e body) now r) := (receive_welcome e body).checked

-- The same of the handler's first step.
theorem arrived_welcome (e : Endpoint) (body : Bytes) (tick : Tick) :
    Welcome L e body tick.now r ((Handler.arrived (.post e body)).run L tick r) := receive_welcome e body

theorem arrived_checked (e : Endpoint) (body : Bytes) (tick : Tick) :
    Checked L e body tick.now r ((Handler.arrived (.post e body)).run L tick r) := receive_checked e body

end Arrivals

section Steps

variable {L : RelayLibraries} {r : Zbacs.Relay} {h : Handler} {tick : Tick}

theorem run_obliging (hobliging : h.obliging = true) : (h.run L tick r).2.1.obliging = true := by
  cases h with
  | arrived | routing => cases hobliging
  | announcing | remembering | noting | lookingUp | handed => rfl
  | queueing targets kind body id => cases targets <;> rfl
  | replied => exact hobliging

theorem routeFor_intact (n : FixedBytes 16) (now : Instant) : Intact now r (r.routeFor n now).2 := by
  refine ⟨rfl, rfl, rfl, fun m => ?_⟩
  have hkept : (r.routeFor n now).2.requestRoutes m =
    (r.requestRoutes m).filter fun route => now.durationSince route.2 < queueTtl := rfl
  rw [hkept]
  cases hroute : r.requestRoutes m with
  | none => exact .inl rfl
  | some route =>
      by_cases hyoung : now.durationSince route.2 < queueTtl
      · exact .inl (Option.filter_eq_some_iff.mpr ⟨rfl, decide_eq_true hyoung⟩)
      · refine .inr ⟨?_, route.1, route.2, rfl, Nat.not_lt.mp hyoung⟩
        rw [Option.filter_some, if_neg (by simpa using hyoung)]

-- A step that does not commit the relay leaves it as it was.
theorem run_intact (hrefusing : (h.run L tick r).2.1.obliging = false) :
    Intact tick.now r (h.run L tick r).2.2 := by
  cases h with
  | arrived arrival =>
      cases arrival with
      | post e body =>
          have hchecked := @arrived_checked L r e body tick
          generalize (Handler.arrived (.post e body)).run L tick r = out at hchecked ⊢
          cases hchecked with
          | unfit | refused => exact .refl _ r
          | metered => exact (takeQuotaAndNonce_metered _ _ r).intact
      | inbox query =>
          simp only [Handler.run, receive] at hrefusing ⊢
          cases hquery : query.target with
          | none => exact .refl _ r
          | some target =>
              rw [hquery] at hrefusing
              cases hrefusing
  | routing grant body =>
      rw [routing_leaves.2]
      exact routeFor_intact grant.requestNonce tick.now
  | queueing targets kind body id => cases targets <;> cases hrefusing
  | announcing | remembering | noting | lookingUp | handed => cases hrefusing
  | replied => exact .refl _ r

end Steps

section Runs

variable {L : RelayLibraries} {index : Nat} {h : Handler} {s : Server} {x : Served} {tick : Tick}

-- A step of a handler in a run.
theorem exists_of_step {turns : List (Turn Arrival Tick)}
    (hx : x ∈ trace (Server.turn L) turns s) (hstep : stepOf x = some (index, h, tick)) :
    ∃ before after, turns = before ++ .resume index tick :: after ∧
      x.before = final (Server.turn L) before s ∧ x.before.threads[index]? = some h ∧
      x.after = (Server.turn L x.before (.resume index tick)).2 ∧
      x.after.shared = (h.run L tick x.before.shared).2.2 := by
  obtain ⟨before, a, after, rfl, rfl⟩ := exists_of_mem_trace hx
  rcases turn_step (L := L) (final (Server.turn L) before s) a with
    ⟨hnone, -⟩ | ⟨i, h', tick', rfl, hthread, hstep', hturn⟩
  · rw [hnone] at hstep
    cases hstep
  · rw [hstep'] at hstep
    cases hstep
    exact ⟨before, after, rfl, rfl, hthread, rfl, congrArg Threads.shared hturn⟩

-- What every step of a handler keeps of it holds of it from then on.
theorem thread_final {p : Handler → Prop} (hkept : ∀ h tick r, p h → p (h.run L tick r).2.1)
    (hthread : s.threads[index]? = some h) (hp : p h) (turns : List (Turn Arrival Tick)) :
    ∃ h', (final (Server.turn L) turns s).threads[index]? = some h' ∧ p h' := by
  induction turns generalizing s h with
  | nil => exact ⟨h, hthread, hp⟩
  | cons a turns ih =>
      by_cases hmine : ∃ tick, a = .resume index tick
      · obtain ⟨tick, rfl⟩ := hmine
        exact ih (turn_mine (L := L) hthread tick).2 (hkept h tick _ hp)
      · exact ih (turn_others (L := L) hthread (not_exists.mp hmine)).2.2 hp

-- Once the relay is committed the submission is not refused.
theorem obliging_final (hthread : s.threads[index]? = some h) (hobliging : h.obliging = true)
    (turns : List (Turn Arrival Tick)) :
    ∃ h', (final (Server.turn L) turns s).threads[index]? = some h' ∧ h'.obliging = true :=
  thread_final (fun _ _ _ => run_obliging) hthread hobliging turns

-- A handler that is done stays where it is.
theorem still_final (hthread : s.threads[index]? = some h) (hstill : ∀ tick r, (h.run L tick r).2.1 = h)
    (turns : List (Turn Arrival Tick)) :
    (final (Server.turn L) turns s).threads[index]? = some h := by
  have hkept : ∀ h' tick r, h' = h → (Handler.run L h' tick r).2.1 = h := by
    rintro h' tick r rfl
    exact hstill tick r
  obtain ⟨h', hfinal, rfl⟩ := thread_final hkept hthread rfl turns
  exact hfinal

-- The steps of a submission that comes to be refused.
theorem refused_step {turns : List (Turn Arrival Tick)} {ack : Ack}
    (hreplied : (final (Server.turn L) turns s).threads[index]? = some (.replied ack))
    (hrefused : ack.ok = false) (hx : x ∈ trace (Server.turn L) turns s)
    (hstep : stepOf x = some (index, h, tick)) :
    Intact tick.now x.before.shared x.after.shared := by
  obtain ⟨before, after, rfl, hbefore, hthread, -, hshared⟩ := exists_of_step hx hstep
  rw [hshared]
  refine run_intact (Bool.eq_false_iff.mpr fun hobliging => ?_)
  obtain ⟨h', hfinal, hobliging'⟩ := obliging_final (turn_mine (L := L) hthread tick).2 hobliging after
  rw [hbefore] at hfinal
  rw [final_append, final, hfinal] at hreplied
  cases hreplied
  exact Bool.false_ne_true (hrefused.symm.trans hobliging')

-- What a submission has to be for a step to record a nonce or to charge a quota.
theorem run_metered (h : Handler) (tick : Tick) (r : Zbacs.Relay) :
    (∃ e body signed, h = .arrived (.post e body) ∧ originOf L e body tick.now r = .ok signed ∧
      Metered signed.kid signed.nonce tick.now r (h.run L tick r).2.2) ∨
    ((h.run L tick r).2.2.nonces = r.nonces ∧ (h.run L tick r).2.2.calls = r.calls) := by
  cases h with
  | arrived arrival =>
      cases arrival with
      | post e body =>
          have hchecked := @arrived_checked L r e body tick
          generalize (Handler.arrived (.post e body)).run L tick r = out at hchecked ⊢
          cases hchecked with
          | unfit | refused => exact .inr ⟨rfl, rfl⟩
          | @metered signed horigin =>
              exact .inl ⟨e, body, signed, rfl, horigin, takeQuotaAndNonce_metered _ _ r⟩
      | inbox query =>
          right
          simp only [Handler.run, receive]
          cases query.target <;> exact ⟨rfl, rfl⟩
  | routing grant body =>
      rw [routing_leaves.2]
      exact .inr ⟨rfl, rfl⟩
  | queueing targets kind body id => cases targets <;> exact .inr ⟨rfl, rfl⟩
  | announcing | remembering | noting | lookingUp | replied | handed => exact .inr ⟨rfl, rfl⟩

-- A device that nobody has signed for keeps its quota.
theorem calls_step {a : Turn Arrival Tick} {kid : FixedBytes 16}
    (hunsigned : ∀ i tick e body signed, stepOf (taken (Server.turn L) s a) =
      some (i, .arrived (.post e body), tick) → originOf L e body tick.now s.shared = .ok signed →
      signed.kid ≠ kid) :
    (Server.turn L s a).2.shared.calls kid = s.shared.calls kid := by
  rcases turn_step (L := L) s a with ⟨-, hshared, -⟩ | ⟨i, h, tick, rfl, -, hstep, hturn⟩
  · rw [hshared]
  · rw [hturn]
    rcases run_metered (L := L) h tick s.shared with ⟨e, body, signed, rfl, horigin, hmetered⟩ |
      ⟨-, hcalls⟩
    · exact hmetered.calls kid (Ne.symm (hunsigned i tick e body signed hstep horigin))
    · exact congrFun hcalls kid

theorem calls_final {turns : List (Turn Arrival Tick)} {kid : FixedBytes 16}
    (hunsigned : ∀ x ∈ trace (Server.turn L) turns s, ∀ i tick e body signed,
      stepOf x = some (i, .arrived (.post e body), tick) →
      originOf L e body tick.now x.before.shared = .ok signed → signed.kid ≠ kid) :
    (final (Server.turn L) turns s).shared.calls kid = s.shared.calls kid := by
  induction turns generalizing s with
  | nil => rfl
  | cons a turns ih =>
      have hnow := hunsigned _ List.mem_cons_self
      rw [final, ih fun x hx => hunsigned x (List.mem_cons_of_mem _ hx)]
      exact calls_step hnow

theorem takeQuota_congr {r r' : Zbacs.Relay} {kid : FixedBytes 16} (h : r'.calls kid = r.calls kid)
    (now : Instant) : (r'.takeQuota kid now).1 = (r.takeQuota kid now).1 := by
  unfold Zbacs.Relay.takeQuota
  dsimp only
  rw [h]
  split_ifs <;> rfl

-- What is refused before its quota is looked at.
theorem unfit_step {turns : List (Turn Arrival Tick)} {e : Endpoint} {body : Bytes} {why : Unfit}
    (hx : x ∈ trace (Server.turn L) turns s) (hstep : stepOf x = some (index, .arrived (.post e body), tick))
    (hunfit : originOf L e body tick.now x.before.shared = .error why) :
    x.after.shared = x.before.shared ∧
      x.after.threads[index]? = some (.replied (refuse (e.codeOf why))) := by
  obtain ⟨before, after, -, -, hthread, hafter, hshared⟩ := exists_of_step hx hstep
  have hchecked := @arrived_checked L x.before.shared e body tick
  have hreplied := (turn_mine (L := L) hthread tick).2
  rw [← hafter] at hreplied
  generalize (Handler.arrived (.post e body)).run L tick x.before.shared = out at *
  cases hchecked with
  | unfit horigin =>
      obtain rfl := Except.error.inj (hunfit.symm.trans horigin)
      exact ⟨hshared, hreplied⟩
  | refused horigin | metered horigin => cases hunfit.symm.trans horigin

-- A nonce that a turn records is that of an envelope with a known signer.
theorem nonces_step {a : Turn Arrival Tick} {n : FixedBytes 16} {t : Instant}
    (hafter : (Server.turn L s a).2.shared.nonces n = some t) (hbefore : s.shared.nonces n ≠ some t) :
    ∃ index e body tick signed, stepOf (taken (Server.turn L) s a) =
        some (index, .arrived (.post e body), tick) ∧
      originOf L e body tick.now s.shared = .ok signed ∧ signed.nonce = n := by
  rcases turn_step (L := L) s a with ⟨-, hshared, -⟩ | ⟨index, h, tick, rfl, -, hstep, hturn⟩
  · rw [hshared] at hafter
    exact absurd hafter hbefore
  · rw [hturn] at hafter
    rcases run_metered (L := L) h tick s.shared with ⟨e, body, signed, rfl, horigin, hmetered⟩ | ⟨hkept, -⟩
    · refine ⟨index, e, body, tick, signed, hstep, horigin, ?_⟩
      by_contra hne
      exact hbefore (hmetered.nonces n (Ne.symm hne) t hafter)
    · dsimp only at hafter
      rw [hkept] at hafter
      exact absurd hafter hbefore

end Runs

-- In every run, whatever comes to be refused has left queues, devices, routes and interests as they
-- were, apart from routes that were too old. What is refused before its quota is looked at leaves
-- everything as it was. A nonce is recorded only for an envelope signed with a key that is
-- registered or announced by it, and a quota is charged only for what its device has signed.
theorem refusals_leave_relay_intact (L : RelayLibraries) (turns : List (Turn Arrival Tick)) :
    (∀ index ack,
      (final (Server.turn L) turns Server.start).threads[index]? = some (.replied ack) →
      ack.ok = false → ∀ x ∈ trace (Server.turn L) turns Server.start, ∀ h tick,
        stepOf x = some (index, h, tick) → Intact tick.now x.before.shared x.after.shared) ∧
    (∀ x ∈ trace (Server.turn L) turns Server.start, ∀ index e body tick why,
      stepOf x = some (index, .arrived (.post e body), tick) →
      originOf L e body tick.now x.before.shared = .error why →
      x.after.shared = x.before.shared ∧
        x.after.threads[index]? = some (.replied (refuse (e.codeOf why)))) ∧
    (∀ x ∈ trace (Server.turn L) turns Server.start, ∀ n t,
      x.after.shared.nonces n = some t → x.before.shared.nonces n ≠ some t →
      ∃ index e body tick signed, stepOf x = some (index, .arrived (.post e body), tick) ∧
        originOf L e body tick.now x.before.shared = .ok signed ∧ signed.nonce = n) ∧
    ∀ before rest kid, turns = before ++ rest →
      (∀ x ∈ trace (Server.turn L) rest (final (Server.turn L) before Server.start),
        ∀ index tick e body signed, stepOf x = some (index, .arrived (.post e body), tick) →
          originOf L e body tick.now x.before.shared = .ok signed → signed.kid ≠ kid) →
      ∀ now, ((final (Server.turn L) turns Server.start).shared.takeQuota kid now).1 =
        ((final (Server.turn L) before Server.start).shared.takeQuota kid now).1 := by
  refine ⟨fun index ack hreplied hrefused x hx h tick hstep => refused_step hreplied hrefused hx hstep,
    ?_, ?_, ?_⟩
  · exact fun x hx index e body tick why hstep hunfit => unfit_step hx hstep hunfit
  · intro x hx n t hafter hbefore
    obtain ⟨pre, a, post, rfl, rfl⟩ := exists_of_mem_trace hx
    exact nonces_step hafter hbefore
  · rintro before rest kid rfl hunsigned now
    rw [final_append]
    exact takeQuota_congr (calls_final hunsigned) now

end Zbacs.Relay
