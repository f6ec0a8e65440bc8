import Zbacs.Agent.Approve.Theorems
import Zbacs.Relay.Revokes

namespace Zbacs.Agent

open Zbacs.Lib Zbacs.Core Zbacs.Proto Zbacs.Relay

-- The key a request or a notice carries.
def carriedKey (L : RelayLibraries) : Arrival → Option (FixedBytes 32)
  | .post .requests body => do
      let signed ← (Signed.fromBytes L.toLibraries body).toOption
      (L.requestCodec.decode signed.payload).toOption.map AccessRequest.ed25519Pub
  | .post .versions body => do
      let signed ← (Signed.fromBytes L.toLibraries body).toOption
      (L.versionCodec.decode signed.payload).toOption.map VersionMsg.ed25519Pub
  | _ => none

-- A kid tells a key that a submission carries from the keys that are registered when it is read.
def KidTells (L : RelayLibraries) (x : Served) : Prop :=
  ∀ index arrival tick key kid device, stepOf x = some (index, .arrived arrival, tick) →
    carriedKey L arrival = some key → x.before.shared.devices kid = some device →
    kidOf L.toLibraries key = kidOf L.toLibraries device.ed25519Pub → key = device.ed25519Pub

-- A body that has passed as a request or a notice for this owner.
inductive Vouched (L : RelayLibraries) (now : Instant) (o : Bytes) : Kind → Bytes → Prop where
  | request {body : Bytes} {signed : Signed} {request : AccessRequest}
      (hbody : Signed.fromBytes L.toLibraries body = .ok signed)
      (hsigned : SignedAs L.toLibraries .req L.requestCodec request.ed25519Pub request signed)
      (hkid : request.deviceKid = signed.kid) (howner : request.owner = o)
      (hskew : absDiff now.unix signed.ts ≤ maxSkewSecs) : Vouched L now o .req body
  | version {body : Bytes} {signed : Signed} {notice : VersionMsg}
      (hbody : Signed.fromBytes L.toLibraries body = .ok signed)
      (hsigned : SignedAs L.toLibraries .version L.versionCodec notice.ed25519Pub notice signed)
      (howner : notice.owner = o) (hskew : absDiff now.unix signed.ts ≤ maxSkewSecs) :
      Vouched L now o .version body

section Verify

variable {L : RelayLibraries} {now : Instant} {r r' : Zbacs.Relay} {α : Type} {kind : Kind}
  {codec : Codec α} {a : α} {signed : Signed} {body : Bytes}

theorem verify_eq_ok {L : Libraries} {key : FixedBytes 32} {now : UInt64} {nonce : FixedBytes 16} :
    signed.verify L kind codec key now = .ok (a, nonce) ↔ SignedAs L kind codec key a signed ∧
      absDiff now signed.ts ≤ maxSkewSecs ∧ signed.nonce = nonce := by
  rw [Signed.verify, ite_error_eq_ok, ite_error_eq_ok, ite_error_eq_ok, ite_error_eq_ok, bind_eq_ok]
  constructor
  · rintro ⟨hkind, hlen, hskew, hkid, ⟨⟩, hraw, h⟩
    obtain ⟨hvalid, hverify⟩ := verifyRaw_eq_ok.mp hraw
    split at h
    · cases h
    · rename_i payload hpayload
      cases h
      exact ⟨⟨not_not.mp hkind, Nat.not_lt.mp hlen, not_not.mp hkid, hvalid, hverify, hpayload⟩,
        UInt64.not_lt.mp hskew, rfl⟩
  · rintro ⟨h, hskew, rfl⟩
    refine ⟨not_not.mpr h.kind_eq, Nat.not_lt.mpr h.short, UInt64.not_lt.mpr hskew,
      not_not.mpr h.kid_eq, (), verifyRaw_eq_ok.mpr ⟨h.validKey, h.verified⟩, ?_⟩
    rw [h.payload]
    rfl

-- What the relay lets in is signed with the registered key.
theorem authenticate_eq_ok (h : authenticate L kind codec body now r = (.ok (signed, a), r')) :
    Signed.fromBytes L.toLibraries body = .ok signed ∧ ∃ device, r.devices signed.kid = some device ∧
      SignedAs L.toLibraries kind codec device.ed25519Pub a signed ∧
      absDiff now.unix signed.ts ≤ maxSkewSecs := by
  unfold authenticate at h
  split_ifs at h
  · cases h
  split at h
  · cases h
  · rename_i signed' hbody
    split at h
    · cases h
    · rename_i device hdevice
      split at h
      · cases h
      · rename_i payload nonce hverify
        split at h
        · cases h
        · cases h
          obtain ⟨hsigned, hskew, -⟩ := verify_eq_ok.mp hverify
          exact ⟨hbody, device, hdevice, hsigned, hskew⟩

end Verify

-- A handler on its way to queue this body for an owner.
def Heading (o : Bytes) (kind : Kind) (body : Bytes) : Handler → Prop
  | .remembering _ request body' | .noting _ request body' =>
      request.owner = o ∧ kind = .req ∧ body = body'
  | .queueing targets kind' body' _ => .owner o ∈ targets ∧ kind = kind' ∧ body = body'
  | _ => False

section Heading

variable {L : RelayLibraries} {r : Zbacs.Relay} {tick : Tick} {h : Handler} {o : Bytes} {kind : Kind}
  {body : Bytes} {log : List Served} {s : Server}

theorem not_heading_continueWith {α : Type} {next : Signed → α → Handler} {now : Instant}
    (hnext : ∀ signed a, ¬Heading o kind body (next signed a))
    (out : Except ErrorCode (Signed × α) × Zbacs.Relay) :
    ¬Heading o kind body (continueWith next now out).2.1 := by
  rcases out with ⟨_ | ⟨signed, a⟩, r'⟩
  · exact id
  · exact hnext signed a

theorem carriedKey_request {signed : Signed} {request : AccessRequest}
    (hbody : Signed.fromBytes L.toLibraries body = .ok signed)
    (hpayload : L.requestCodec.decode signed.payload = .ok request) :
    carriedKey L (.post .requests body) = some request.ed25519Pub := by
  simp [carriedKey, hbody, hpayload, Except.toOption]

theorem requested_heading {now : Instant} {body' : Bytes}
    (htells : ∀ key kid device, carriedKey L (.post .requests body') = some key →
      r.devices kid = some device →
      kidOf L.toLibraries key = kidOf L.toLibraries device.ed25519Pub → key = device.ed25519Pub)
    (hheading : Heading o kind body (continueWith (requested L body') now
      (authenticate L .req L.requestCodec body' now r)).2.1) :
    kind = .req ∧ body = body' ∧ Vouched L now o kind body := by
  rcases hout : authenticate L .req L.requestCodec body' now r with ⟨_ | ⟨signed, request⟩, r'⟩
  · rw [hout] at hheading
    exact hheading.elim
  rw [hout] at hheading
  dsimp only [continueWith, requested] at hheading
  split_ifs at hheading with hkids howner
  · exact hheading.elim
  · exact hheading.elim
  obtain ⟨howner, rfl, rfl⟩ := hheading
  rw [not_or, not_not, not_not] at hkids
  obtain ⟨hbody, device, hdevice, hsigned, hskew⟩ := authenticate_eq_ok hout
  have hsame := htells _ _ _ (carriedKey_request hbody hsigned.payload) hdevice
    (hkids.2.trans hsigned.kid_eq.symm)
  exact ⟨rfl, rfl, .request hbody (hsame ▸ hsigned) hkids.1 howner hskew⟩

theorem versioned_heading {now : Instant} {body' : Bytes}
    (htells : ∀ key kid device, carriedKey L (.post .versions body') = some key →
      r.devices kid = some device →
      kidOf L.toLibraries key = kidOf L.toLibraries device.ed25519Pub → key = device.ed25519Pub)
    (hheading : Heading o kind body (continueWith (versioned L body') now
      (authenticate L .version L.versionCodec body' now r)).2.1) :
    kind = .version ∧ body = body' ∧ Vouched L now o kind body := by
  rcases hout : authenticate L .version L.versionCodec body' now r with ⟨_ | ⟨signed, notice⟩, r'⟩
  · rw [hout] at hheading
    exact hheading.elim
  rw [hout] at hheading
  dsimp only [continueWith, versioned] at hheading
  split_ifs at hheading with hkid howner
  · exact hheading.elim
  · exact hheading.elim
  obtain ⟨howner, rfl, rfl⟩ := hheading
  obtain ⟨hbody, device, hdevice, hsigned, hskew⟩ := authenticate_eq_ok hout
  have hcarried : carriedKey L (.post .versions body) = some notice.ed25519Pub := by
    simp [carriedKey, hbody, hsigned.payload, Except.toOption]
  have hsame := htells _ _ _ hcarried hdevice ((not_not.mp hkid).trans hsigned.kid_eq.symm)
  exact ⟨rfl, rfl, .version hbody (hsame ▸ hsigned) (Inbox.owner.inj (List.mem_singleton.mp howner)).symm
    hskew⟩

-- Nothing else starts towards an owner's inbox.
theorem run_heading
    (htells : ∀ arrival key kid device, h = .arrived arrival → carriedKey L arrival = some key →
      r.devices kid = some device →
      kidOf L.toLibraries key = kidOf L.toLibraries device.ed25519Pub → key = device.ed25519Pub)
    (hheading : Heading o kind body (h.run L tick r).2.1) :
    Heading o kind body h ∨ ∃ e, h = .arrived (.post e body) ∧ (kind = .req → e = .requests) ∧
      (kind = .version → e = .versions) ∧ Vouched L tick.now o kind body := by
  cases h with
  | arrived arrival =>
      right
      cases arrival with
      | post e body' =>
          cases e with
          | devices => exact absurd hheading (not_heading_continueWith (fun _ _ => id) _)
          | requests =>
              obtain ⟨rfl, rfl, hvouched⟩ := requested_heading
                (fun key kid device => htells _ key kid device rfl) hheading
              exact ⟨_, rfl, fun _ => rfl, fun hkind => Kind.noConfusion hkind, hvouched⟩
          | versions =>
              obtain ⟨rfl, rfl, hvouched⟩ := versioned_heading
                (fun key kid device => htells _ key kid device rfl) hheading
              exact ⟨_, rfl, fun hkind => Kind.noConfusion hkind, fun _ => rfl, hvouched⟩
          | grants => exact absurd hheading (not_heading_continueWith (fun _ _ => id) _)
          | revocations => exact absurd hheading (not_heading_continueWith (fun _ _ => id) _)
      | inbox query =>
          simp only [Handler.run, receive] at hheading
          cases hquery : query.target <;> rw [hquery] at hheading <;> exact hheading.elim
  | remembering => exact .inl hheading
  | noting kid request body' =>
      obtain ⟨howner, hkind, hbody⟩ := hheading
      exact .inl ⟨(Inbox.owner.inj (List.mem_singleton.mp howner)).symm, hkind, hbody⟩
  | queueing targets kind' body' id =>
      cases targets with
      | nil => exact hheading.elim
      | cons target targets =>
          obtain ⟨howner, hkind, hbody⟩ := hheading
          exact .inl ⟨List.mem_cons_of_mem _ howner, hkind, hbody⟩
  | routing grant body' =>
      obtain ⟨kid, -, hrun⟩ | ⟨why, -, hrun⟩ := @routing_cases L grant body' tick r
      · rw [hrun] at hheading
        simp [Heading] at hheading
      · rw [hrun] at hheading
        exact hheading.elim
  | lookingUp revoke body' => simp [Handler.run, Heading] at hheading
  | announcing | replied | handed => exact hheading.elim

-- What is on its way to an owner's inbox has been let in before.
def Led (L : RelayLibraries) (o : Bytes) (kind : Kind) (body : Bytes) (log : List Served) (s : Server) :
    Prop :=
  ∀ index h, s.threads[index]? = some h → Heading o kind body h →
    ∃ y ∈ log, ∃ e tick, stepOf y = some (index, .arrived (.post e body), tick) ∧
      (kind = .req → e = .requests) ∧ (kind = .version → e = .versions) ∧
      Vouched L tick.now o kind body

theorem Led.turn (h : Led L o kind body log s) (a : Turn Arrival Tick)
    (htells : KidTells L (taken (Server.turn L) s a)) :
    Led L o kind body (log ++ [taken (Server.turn L) s a]) (Server.turn L s a).2 := by
  have hearlier : ∀ index h', s.threads[index]? = some h' → Heading o kind body h' →
      ∃ y ∈ log ++ [taken (Server.turn L) s a], ∃ e tick,
        stepOf y = some (index, .arrived (.post e body), tick) ∧ (kind = .req → e = .requests) ∧
        (kind = .version → e = .versions) ∧ Vouched L tick.now o kind body := by
    intro index h' hthread hheading
    obtain ⟨y, hy, hstep⟩ := h index h' hthread hheading
    exact ⟨y, List.mem_append_left _ hy, hstep⟩
  intro index h' hthread hheading
  obtain hsame | ⟨arrival, -, rfl⟩ | ⟨tick, handler, rfl, hmine, rfl⟩ := Threads.thread_cases hthread
  · exact hearlier index h' hsame hheading
  · exact hheading.elim
  · have hstep : stepOf (taken (Server.turn L) s (.resume index tick)) =
        some (index, handler, tick) := by
      simp [stepOf, taken, hmine]
    rcases run_heading (fun arrival key kid device harrived =>
      htells index arrival tick key kid device (harrived ▸ hstep)) hheading with
      hbefore | ⟨e, rfl, hreq, hversion, hvouched⟩
    · exact hearlier index handler hmine hbefore
    · exact ⟨_, List.mem_append_right _ (List.mem_singleton_self _), e, tick, hstep, hreq, hversion,
        hvouched⟩

theorem led_final (o : Bytes) (kind : Kind) (body : Bytes) {turns : List (Turn Arrival Tick)}
    (htells : ∀ x ∈ trace (Server.turn L) turns Server.start, KidTells L x) :
    Led L o kind body (trace (Server.turn L) turns Server.start)
      (final (Server.turn L) turns Server.start) := by
  refine @trace_induct_along _ _ _ (Server.turn L) (fun _ x => KidTells L x) _ _ ?_
    (fun log s a h htells => h.turn a htells) turns ?_
  · intro index h hthread
    cases hthread
  · rintro pre x post hlog
    exact htells x (hlog ▸ List.mem_append_right _ List.mem_cons_self)

end Heading

section Fresh

variable {L : RelayLibraries} {now : Instant} {o body : Bytes} {t : UInt64} {envelope : Proto.Envelope}

-- What the relay takes as new the owner takes for a day, less the skew.
theorem isFresh_of_skew {now ts t : UInt64} (hskew : absDiff now ts ≤ maxSkewSecs)
    (hfrom : now.toNat ≤ t.toNat) (huntil : t.toNat ≤ now.toNat + 24 * 3600 - 120)
    (hclock : t.toNat < 2 ^ 63) : isFresh ts t = true := by
  obtain ⟨hlate, hearly⟩ := secs_of_skew hskew
  have hskewSecs : maxSkewSecs.toNat = 120 := rfl
  have hage : maxRequestAgeSecs.toNat = 86400 := rfl
  unfold isFresh
  refine decide_eq_true ⟨?_, ?_⟩
  · rw [UInt64.le_iff_toNat_le, UInt64.toNat_add, hskewSecs]
    omega
  · unfold saturatingSub
    by_cases hpast : ts ≤ t
    · rw [if_pos hpast, UInt64.le_iff_toNat_le, UInt64.toNat_sub_of_le _ _ hpast, hage]
      omega
    · rw [if_neg hpast, UInt64.le_iff_toNat_le, hage]
      exact Nat.zero_le _

-- The owner's clock in the day after the relay's reading, less the skew.
def InDay (now : Instant) (t : UInt64) : Prop :=
  now.unix.toNat ≤ t.toNat ∧ t.toNat ≤ now.unix.toNat + 24 * 3600 - 120

-- What a clock can read: seconds that a signed number of 64 bits holds.
def Readable (t : UInt64) : Prop := t.toNat < 2 ^ 63

theorem Vouched.reads {kind : Kind} (h : Vouched L now o kind body) (hkind : envelope.kind = kind)
    (hbody : envelope.body = body) :
    ∃ signed, Signed.fromBytes L.toLibraries body = .ok signed ∧
      ((kind = .req ∧ ∃ request, L.requestCodec.decode signed.payload = .ok request ∧
          (request.requested = 1 ∨ request.requested = 2 → ∀ t, InDay now t → Readable t →
            acceptRequest L.toLibraries envelope o t = some request)) ∨
        (kind = .version ∧ ∃ notice, L.versionCodec.decode signed.payload = .ok notice ∧
          ∀ t, InDay now t → Readable t → acceptVersion L.toLibraries envelope o t = some notice)) := by
  subst hbody
  cases h with
  | @request _ signed request hread hsigned hkid howner hskew =>
      refine ⟨signed, hread, .inl ⟨rfl, request, hsigned.payload, fun hrequested t hday hclock => ?_⟩⟩
      exact acceptRequest_eq_some.mpr ⟨hkind, signed, hread, hsigned, hkid, howner,
        isFresh_of_skew hskew hday.1 hday.2 hclock, hrequested⟩
  | @version _ signed notice hread hsigned howner hskew =>
      refine ⟨signed, hread, .inr ⟨rfl, notice, hsigned.payload, fun t hday hclock => ?_⟩⟩
      exact acceptVersion_eq_some.mpr ⟨hkind, signed, hread, hsigned, howner,
        isFresh_of_skew hskew hday.1 hday.2 hclock⟩

theorem thread_of_step {x : Served} {index : Nat} {handler : Handler} {tick : Tick}
    (h : stepOf x = some (index, handler, tick)) : x.before.threads[index]? = some handler := by
  unfold stepOf at h
  split at h
  · cases h
  · obtain ⟨handler', hthread, heq⟩ := Option.map_eq_some_iff.mp h
    cases heq
    exact hthread

-- What a step queues for an owner its handler was on the way with.
theorem heading_of_appended {x : Served} {q : Queued} (h : q ∈ appendedTo (.owner o) x) :
    ∃ index handler tick, stepOf x = some (index, handler, tick) ∧
      Heading o q.envelope.kind q.envelope.body handler := by
  simp only [appendedTo, List.mem_filterMap, Option.mem_toList, Option.bind_eq_some_iff,
    Prod.exists] at h
  obtain ⟨target, q', ⟨index, handler, tick, hstep, hput⟩, hq⟩ := h
  split_ifs at hq with htarget
  cases hq
  refine ⟨index, handler, tick, hstep, ?_⟩
  cases handler with
  | queueing targets kind body id =>
      cases targets with
      | nil => cases hput
      | cons first targets =>
          cases hput
          exact ⟨htarget ▸ List.mem_cons_self, rfl, rfl⟩
  | arrived | announcing | remembering | noting | routing | lookingUp | replied | handed => cases hput

end Fresh

-- Whatever the relay queues for an owner it has let in as a request or a notice, and for a day, less
-- the skew, the owner reads it as the very message. What the owner accepts is signed with the key
-- it carries, whose kid is on the envelope. A kid tells the keys in use apart.
theorem owner_reads_what_relay_queues (L : RelayLibraries) (turns : List (Turn Arrival Tick))
    (hkids : ∀ x ∈ trace (Server.turn L) turns Server.start, KidTells L x) :
    (∀ before a after o q, turns = before ++ a :: after →
      q ∈ appendedTo (.owner o)
        (taken (Server.turn L) (final (Server.turn L) before Server.start) a) →
      ∃ y ∈ trace (Server.turn L) before Server.start, ∃ index e tick signed,
        stepOf y = some (index, .arrived (.post e q.envelope.body), tick) ∧
        Signed.fromBytes L.toLibraries q.envelope.body = .ok signed ∧
        ((q.envelope.kind = .req ∧ e = .requests ∧ ∃ request,
            L.requestCodec.decode signed.payload = .ok request ∧
            (request.requested = 1 ∨ request.requested = 2 → ∀ t, InDay tick.now t → Readable t →
              acceptRequest L.toLibraries q.envelope o t = some request)) ∨
          (q.envelope.kind = .version ∧ e = .versions ∧ ∃ notice,
            L.versionCodec.decode signed.payload = .ok notice ∧
            ∀ t, InDay tick.now t → Readable t →
              acceptVersion L.toLibraries q.envelope o t = some notice))) ∧
    (∀ envelope o t request, acceptRequest L.toLibraries envelope o t = some request →
      ∃ signed, Signed.fromBytes L.toLibraries envelope.body = .ok signed ∧
        SignedAs L.toLibraries .req L.requestCodec request.ed25519Pub request signed) ∧
    ∀ envelope o t notice, acceptVersion L.toLibraries envelope o t = some notice →
      ∃ signed, Signed.fromBytes L.toLibraries envelope.body = .ok signed ∧
        SignedAs L.toLibraries .version L.versionCodec notice.ed25519Pub notice signed := by
  refine ⟨?_, ?_, ?_⟩
  · rintro before a after o q rfl hq
    rw [trace_append] at hkids
    obtain ⟨index, handler, tick, hstep, hheading⟩ := heading_of_appended hq
    have hthread := thread_of_step hstep
    obtain ⟨y, hy, e, tick', hy', hreq, hversion, hvouched⟩ := led_final o _ _
      (fun x hx => hkids x (List.mem_append_left _ hx)) index handler hthread hheading
    obtain ⟨signed, hread, hmessage⟩ := @Vouched.reads _ _ _ _ q.envelope _ hvouched rfl rfl
    refine ⟨y, hy, index, e, tick', signed, hy', hread, ?_⟩
    exact hmessage.imp (fun ⟨hkind, hrequest⟩ => ⟨hkind, hreq hkind, hrequest⟩)
      fun ⟨hkind, hnotice⟩ => ⟨hkind, hversion hkind, hnotice⟩
  · intro envelope o t request h
    obtain ⟨-, signed, hread, hsigned, -⟩ := acceptRequest_eq_some.mp h
    exact ⟨signed, hread, hsigned⟩
  · intro envelope o t notice h
    obtain ⟨-, signed, hread, hsigned, -⟩ := acceptVersion_eq_some.mp h
    exact ⟨signed, hread, hsigned⟩

theorem kidTells_of_none {L : RelayLibraries} {x : Served}
    (h : ∀ index arrival tick, stepOf x = some (index, .arrived arrival, tick) →
      carriedKey L arrival = none) : KidTells L x := by
  intro index arrival tick key kid device hstep hkey
  rw [h index arrival tick hstep] at hkey
  cases hkey

-- The relay knows one device, and this is its key.
theorem kidTells_of_only {L : RelayLibraries} {x : Served} {only : Device}
    (hkey : ∀ index arrival tick, stepOf x = some (index, .arrived arrival, tick) →
      carriedKey L arrival = some only.ed25519Pub)
    (honly : ∀ kid device, x.before.shared.devices kid = some device → device = only) : KidTells L x := by
  intro index arrival tick key kid device hstep hcarried hdevice _
  rw [hkey index arrival tick hstep] at hcarried
  rw [honly kid device hdevice]
  exact (Option.some.inj hcarried).symm

theorem announce_only {r : Zbacs.Relay} {kid kid' : FixedBytes 16} {device device' : Device}
    (hnew : r.devices = Zbacs.Relay.new.devices)
    (h : (r.announce kid device).devices kid' = some device') : device' = device := by
  by_cases hkid : kid' = kid
  · rw [hkid, announce_known] at h
    exact (Option.some.inj h).symm
  · have hnone : (r.announce kid device).devices kid' = r.devices kid' := Function.update_of_ne hkid ..
    rw [hnone, hnew] at h
    cases h

end Zbacs.Agent

namespace Zbacs.Relay.Reference

open Zbacs.Lib Zbacs.Proto Zbacs.Agent

def plea : AccessRequest := { request with requested := 1 }

-- A device announces itself and asks, and the request is queued.
def pleading (announcement body : Bytes) : List (Turn Arrival Tick) :=
  [.start (.post .devices announcement), .resume 0 (tick 1000), .resume 0 (tick 1000),
    .start (.post .requests body), .resume 1 (tick 1001), .resume 1 (tick 1001),
    .resume 1 (tick 1001)]

theorem plea_queued : ∃ announcement body,
    (∀ x ∈ trace (Server.turn libraries) (pleading announcement body ++ [.resume 1 (tick 1001)])
      Server.start, KidTells libraries x) ∧
    (final (Server.turn libraries) (pleading announcement body) Server.start).threads[1]? =
      some (.queueing [.owner plea.owner] .req body (.replicate 16 0)) ∧
    ∃ signed, Signed.fromBytes libraries.toLibraries body = .ok signed ∧
      libraries.requestCodec.decode signed.payload = .ok plea := by
  obtain ⟨signed₀, r₀, -, hrun₀, hdevices₀, hcalls₀, hfree₀⟩ := announcement_arrives
  obtain ⟨signed₁, r₁, hbody₁, hkid₁, hauth₁, hdevices₁, -⟩ := @passes_known _ requestWire
    plea ((requestWire_size plea).trans (by decide)) .req (.replicate 16 6) 1001
    (r₀.announce device.kid ⟨device.ed25519Pub, device.x25519Pub, none⟩) (tick 1001).now (by decide)
    (announce_known ..) (Nat.lt_of_le_of_lt hcalls₀ (by decide)) (hfree₀ _ (by decide))
  have hrun₁ : Handler.run libraries (.arrived (.post .requests (signedWire.put signed₁))) (tick 1001)
      (r₀.announce device.kid ⟨device.ed25519Pub, device.x25519Pub, none⟩) =
        ([⟨signed₁, (tick 1001).now⟩], .remembering device.kid plea (signedWire.put signed₁), r₁) := by
    simp only [Handler.run, receive]
    rw [show libraries.requestCodec = requestWire.codec from rfl, hauth₁]
    simp only [continueWith, requested, hkid₁]
    rw [if_neg (by decide), if_neg (by decide)]
  obtain ⟨hread, known, -, hsigned, -⟩ := authenticate_eq_ok hauth₁
  have hpayload : libraries.requestCodec.decode signed₁.payload = .ok plea := hsigned.payload
  have hcarried : carriedKey libraries (.post .requests (signedWire.put signed₁)) =
      some device.ed25519Pub := carriedKey_request hread hpayload
  have hannouncing : ∀ kid d t r, Handler.run libraries (.announcing kid d) t r =
      ([], .replied (accept kid), r.announce kid d) := fun _ _ _ _ => rfl
  have hremembering : ∀ kid request body t r,
      Handler.run libraries (.remembering kid request body) t r =
        ([], .noting kid request body, r.rememberRequest request.nonce kid t.now) :=
    fun _ _ _ _ _ => rfl
  have hnoting : ∀ kid request body t r, Handler.run libraries (.noting kid request body) t r =
      ([], .queueing [.owner request.owner] .req body (.replicate 16 0),
        r.rememberInterest request.fid kid t.now) := fun _ _ _ _ _ => rfl
  have hqueueing : ∀ target body id t r, Handler.run libraries (.queueing [target] .req body id) t r =
      ([], .queueing [] .req body t.id, r.enqueue target .req body t.id t.now) := fun _ _ _ _ _ => rfl
  refine ⟨signedWire.put signed₀, signedWire.put signed₁, ?_, ?_, signed₁, hread, hpayload⟩
  · intro x hx
    simp only [pleading, List.cons_append, List.nil_append, trace, taken, Server.turn, Threads.turn,
      Server.start, List.getElem?_cons_zero, List.getElem?_cons_succ, List.set_cons_zero,
      List.set_cons_succ, hrun₀, hrun₁, hannouncing, hremembering, hnoting, hqueueing, List.mem_cons,
      List.not_mem_nil, or_false] at hx
    rcases hx with rfl | rfl | rfl | rfl | rfl | rfl | rfl | rfl
    · exact kidTells_of_none fun index arrival t hstep => by simp [stepOf] at hstep
    · refine kidTells_of_none fun index arrival t hstep => ?_
      simp only [stepOf, List.getElem?_cons_zero, Option.map_some, Option.some.injEq,
        Prod.mk.injEq, Handler.arrived.injEq] at hstep
      rw [← hstep.2.1]
      rfl
    · exact kidTells_of_none fun index arrival t hstep => by simp [stepOf] at hstep
    · exact kidTells_of_none fun index arrival t hstep => by simp [stepOf] at hstep
    · refine kidTells_of_only (fun index arrival t hstep => ?_) fun kid d hdevice =>
        announce_only hdevices₀ hdevice
      simp only [stepOf, List.getElem?_cons_zero, List.getElem?_cons_succ, Option.map_some,
        Option.some.injEq, Prod.mk.injEq, Handler.arrived.injEq] at hstep
      rw [← hstep.2.1]
      exact hcarried
    · exact kidTells_of_none fun index arrival t hstep => by simp [stepOf] at hstep
    · exact kidTells_of_none fun index arrival t hstep => by simp [stepOf] at hstep
    · exact kidTells_of_none fun index arrival t hstep => by simp [stepOf] at hstep
  · simp [final, pleading, Server.turn, Threads.turn, Server.start, hrun₀, hrun₁, hannouncing,
      hremembering, hnoting]

theorem plea_read : ∃ announcement body now q,
    q ∈ appendedTo (.owner plea.owner) (taken (Server.turn libraries)
      (final (Server.turn libraries) (pleading announcement body) Server.start)
      (.resume 1 (tick 1001))) ∧
    ∀ t, InDay now t → Readable t →
      acceptRequest libraries.toLibraries q.envelope plea.owner t = some plea := by
  obtain ⟨announcement, body, hkids, hthread, signed, hread, hpayload⟩ := plea_queued
  have hqueued : ⟨⟨(tick 1001).id, .req, body, (tick 1001).now.unix⟩, (tick 1001).now⟩ ∈
      appendedTo (.owner plea.owner) (taken (Server.turn libraries)
        (final (Server.turn libraries) (pleading announcement body) Server.start)
        (.resume 1 (tick 1001))) := by
    simp [appendedTo, stepOf, taken, hthread, Handler.put]
  obtain ⟨y, -, index, e, t, signed', -, hread', hmessage⟩ :=
    (owner_reads_what_relay_queues libraries _ hkids).1 _ _ [] _ _ rfl hqueued
  obtain rfl := Except.ok.inj (hread.symm.trans hread')
  rcases hmessage with ⟨-, -, request, hdecoded, haccept⟩ | ⟨hkind, -⟩
  · obtain rfl := Except.ok.inj (hpayload.symm.trans hdecoded)
    exact ⟨announcement, body, t.now, _, hqueued, haccept (.inl rfl)⟩
  · cases hkind

end Zbacs.Relay.Reference
