import Mathlib.Data.List.Nodup
import Zbacs.Lib.Result
import Zbacs.Proto.Wire
import Zbacs.Relay.Routes

namespace Zbacs.Relay

open Zbacs.Lib Zbacs.Proto

section Clock

theorem secs_of_skew {now ts : UInt64} (h : absDiff now ts ≤ maxSkewSecs) :
    now.toNat ≤ ts.toNat + 120 ∧ ts.toNat ≤ now.toNat + 120 := by
  have hmax : maxSkewSecs.toNat = 120 := rfl
  unfold absDiff at h
  by_cases hlt : now < ts
  · rw [if_pos hlt, UInt64.le_iff_toNat_le, UInt64.toNat_sub_of_le _ _ (UInt64.le_of_lt hlt)] at h
    rw [UInt64.lt_iff_toNat_lt] at hlt
    omega
  · rw [UInt64.not_lt] at hlt
    rw [if_neg (UInt64.not_lt.mpr hlt), UInt64.le_iff_toNat_le, UInt64.toNat_sub_of_le _ _ hlt] at h
    rw [UInt64.le_iff_toNat_le] at hlt
    omega

-- Two readings within the skew of one timestamp: 240 whole seconds apart, and less than one
-- more for what the seconds leave out.
theorem toNanos_lt_of_skew {t t' : Instant} {ts : UInt64} (h : absDiff t.unix ts ≤ maxSkewSecs)
    (h' : absDiff t'.unix ts ≤ maxSkewSecs) : t'.toNanos < t.toNanos + fromSecs 241 := by
  have hsecs := secs_of_skew h
  have hsecs' := secs_of_skew h'
  have hnanos := t'.nanos_lt
  simp only [Instant.unix] at hsecs hsecs'
  unfold Instant.toNanos fromSecs
  omega

end Clock

-- What a step does to the nonces that are remembered.
inductive Noted (now : Instant) (r r' : Zbacs.Relay) : List Passed → Prop where
  | kept (hnonces : r'.nonces = r.nonces) : Noted now r r' []
  | pruned (hnonces : r'.nonces = r.remembered now) : Noted now r r' []
  | passed {signed : Signed} (hskew : absDiff now.unix signed.ts ≤ maxSkewSecs)
      (hfresh : r.remembered now signed.nonce = none)
      (hnonces : r'.nonces = Function.update (r.remembered now) signed.nonce (some now)) :
      Noted now r r' [⟨signed, now⟩]

section Nonces

variable {L : RelayLibraries} {now : Instant} {r r' : Zbacs.Relay}

theorem takeQuota_nonces (kid : FixedBytes 16) : (r.takeQuota kid now).2.nonces = r.nonces := by
  unfold Zbacs.Relay.takeQuota
  dsimp only
  split_ifs <;> rfl

theorem remembered_congr (h : r'.nonces = r.nonces) : r'.remembered now = r.remembered now := by
  funext nonce
  rw [Zbacs.Relay.remembered, Zbacs.Relay.remembered, h]

-- A submission that is refused burns no nonce.
theorem admit_noted {signed : Signed} (hskew : absDiff now.unix signed.ts ≤ maxSkewSecs) :
    Noted now r (takeQuotaAndNonce signed.kid signed.nonce now r).2
      (match (takeQuotaAndNonce signed.kid signed.nonce now r).1 with
        | .error _ => []
        | .ok () => [⟨signed, now⟩]) := by
  have hquota : (r.takeQuota signed.kid now).2.nonces = r.nonces := takeQuota_nonces signed.kid
  unfold takeQuotaAndNonce
  rcases hcalls : r.takeQuota signed.kid now with ⟨result, r₁⟩
  rw [hcalls] at hquota
  cases result with
  | error e => exact .kept hquota
  | ok =>
      have hsame : r₁.remembered now = r.remembered now := remembered_congr hquota
      dsimp only [Zbacs.Relay.takeNonce]
      cases hseen : r₁.remembered now signed.nonce with
      | some seen => exact .pruned hsame
      | none => exact .passed hskew (by rw [← hsame, hseen]) (by rw [← hsame]; rfl)

-- What a verified message is read as.
theorem verify_reads {α : Type} {kind : Kind} {codec : Codec α} {signed : Signed}
    {key : FixedBytes 32} {ts : UInt64} {payload : α} {nonce : FixedBytes 16}
    (h : signed.verify L.toLibraries kind codec key ts = .ok (payload, nonce)) :
    nonce = signed.nonce ∧ absDiff ts signed.ts ≤ maxSkewSecs ∧
      codec.decode signed.payload = .ok payload ∧ kidOf L.toLibraries key = signed.kid := by
  unfold Signed.verify at h
  split_ifs at h with hkind hlen hskew hkid
  obtain ⟨_, -, h⟩ := bind_eq_ok.mp h
  split at h
  · cases h
  · rename_i hpayload
    cases h
    exact ⟨rfl, UInt64.not_lt.mp hskew, hpayload, not_not.mp hkid⟩

-- Both ways to authenticate refuse before the relay is touched, or end at the quota and the nonce.
inductive Decided {α : Type} (now : Instant) (r : Zbacs.Relay) :
    Except ErrorCode (Signed × α) × Zbacs.Relay → Prop where
  | refused (code : ErrorCode) : Decided now r (.error code, r)
  | admitted {signed : Signed} (payload : α) (hskew : absDiff now.unix signed.ts ≤ maxSkewSecs) :
      Decided now r (match takeQuotaAndNonce signed.kid signed.nonce now r with
        | (.error e, r) => (.error e, r)
        | (.ok (), r) => (.ok (signed, payload), r))

theorem authenticate_decided {α : Type} (kind : Kind) (codec : Codec α) (body : Bytes) :
    Decided now r (authenticate L kind codec body now r) := by
  unfold authenticate
  split_ifs
  · exact .refused _
  cases Signed.fromBytes L.toLibraries body with
  | error e => exact .refused _
  | ok signed =>
      dsimp only
      cases r.devices signed.kid with
      | none => exact .refused _
      | some device =>
          dsimp only
          rcases hverify : signed.verify L.toLibraries kind codec device.ed25519Pub now.unix with
            e | ⟨payload, nonce⟩
          · exact .refused _
          · obtain ⟨rfl, hskew, -⟩ := verify_reads hverify
            exact .admitted payload hskew

theorem authenticateAnnounce_decided (body : Bytes) :
    Decided now r (authenticateAnnounce L body now r) := by
  unfold authenticateAnnounce
  split_ifs
  · exact .refused _
  cases Signed.fromBytes L.toLibraries body with
  | error e => exact .refused _
  | ok signed =>
      dsimp only
      cases L.announceCodec.decode signed.payload with
      | error e => exact .refused _
      | ok claimed =>
          dsimp only
          rcases hverify : signed.verify L.toLibraries .announce L.announceCodec
            claimed.ed25519Pub now.unix with e | ⟨announce, nonce⟩
          · exact .refused _
          · obtain ⟨rfl, hskew, -⟩ := verify_reads hverify
            dsimp only
            split_ifs
            · exact .refused _
            · exact .refused _
            · exact .admitted announce hskew

-- Nothing is noted on the way to a refusal, and an admission is noted with its nonce.
theorem Decided.noted {α : Type} {out : Except ErrorCode (Signed × α) × Zbacs.Relay}
    (h : Decided now r out) (next : Signed → α → Handler) :
    Noted now r (continueWith next now out).2.2 (continueWith next now out).1 := by
  cases h with
  | refused code => exact .kept rfl
  | @admitted signed payload hskew =>
      have hadmit : Noted now r _ _ := admit_noted hskew
      rcases hresult : takeQuotaAndNonce signed.kid signed.nonce now r with ⟨result, r₁⟩
      rw [hresult] at hadmit
      cases result <;> exact hadmit

-- Every step of every handler.
theorem run_noted (h : Handler) (tick : Tick) :
    Noted tick.now r (h.run L tick r).2.2 (h.run L tick r).1 := by
  cases h with
  | arrived arrival =>
      cases arrival with
      | post endpoint body =>
          cases endpoint with
          | devices => exact (authenticateAnnounce_decided body).noted announced
          | requests => exact (authenticate_decided .req L.requestCodec body).noted (requested L body)
          | grants => exact (authenticate_decided .grant L.grantCodec body).noted _
          | versions => exact (authenticate_decided .version L.versionCodec body).noted _
          | revocations => exact (authenticate_decided .revoke L.revokeCodec body).noted _
      | inbox query =>
          simp only [Handler.run, receive]
          cases query.target <;> exact .kept rfl
  | queueing targets kind body id => cases targets <;> exact .kept rfl
  | routing grant body =>
      rw [routing_leaves.1, routing_leaves.2]
      exact .kept rfl
  | announcing | remembering | noting | lookingUp | replied | handed => exact .kept rfl

end Nonces

abbrev Served := Taken Server (Turn Arrival Tick) (List Passed)

-- The readings of the clock in a run, and what has passed.
def clock : Turn Arrival Tick → Option Instant
  | .start _ => none
  | .resume _ tick => some tick.now

def readings (log : List Served) : List Instant := log.filterMap fun x => clock x.input

def passes (log : List Served) : List Passed := log.flatMap Taken.output

-- One clock that never goes back.
def Forward (turns : List (Turn Arrival Tick)) : Prop :=
  (turns.filterMap clock).Pairwise fun t t' => t.toNanos ≤ t'.toNanos

-- What has passed is remembered, until the clock has gone on for as long as the memory lasts.
structure Remembers (log : List Served) (r : Zbacs.Relay) : Prop where
  skew : ∀ p ∈ passes log, absDiff p.since.unix p.signed.ts ≤ maxSkewSecs
  held : ∀ p ∈ passes log, r.nonces p.signed.nonce = some p.since ∨
    ∃ now ∈ readings log, p.since.toNanos + fromSecs nonceMemorySecs ≤ now.toNanos

section Run

variable {L : RelayLibraries} {log : List Served} {x : Served} {r r' : Zbacs.Relay}

theorem passes_concat : passes (log ++ [x]) = passes log ++ x.output := by
  simp [passes]

theorem readings_concat : readings (log ++ [x]) = readings log ++ (clock x.input).toList := by
  rw [readings, List.filterMap_append]
  rfl

theorem readings_trace (turns : List (Turn Arrival Tick)) (s : Server) :
    readings (trace (Server.turn L) turns s) = turns.filterMap clock := by
  have hinputs : (trace (Server.turn L) turns s).map Taken.input = turns := map_input_trace turns s
  conv_rhs => rw [← hinputs, List.filterMap_map]
  rfl

theorem remembered_of_recent {now : Instant} {p : Passed}
    (hseen : r.nonces p.signed.nonce = some p.since)
    (hrecent : now.toNanos < p.since.toNanos + fromSecs nonceMemorySecs) :
    r.remembered now p.signed.nonce = some p.since := by
  have hspan : now.durationSince p.since < fromSecs nonceMemorySecs := by
    have hpos : 0 < fromSecs nonceMemorySecs := by decide
    unfold Instant.durationSince
    omega
  rw [Zbacs.Relay.remembered, hseen, Option.filter_some, if_pos (decide_eq_true hspan)]

-- What the pruning at this time leaves of an earlier pass.
theorem Remembers.prune (h : Remembers log r) {now : Instant} {p : Passed} (hp : p ∈ passes log) :
    r.remembered now p.signed.nonce = some p.since ∨
      ∃ t ∈ readings log ++ [now], p.since.toNanos + fromSecs nonceMemorySecs ≤ t.toNanos := by
  rcases h.held p hp with hseen | ⟨t, ht, hpast⟩
  · by_cases hrecent : now.toNanos < p.since.toNanos + fromSecs nonceMemorySecs
    · exact .inl (remembered_of_recent hseen hrecent)
    · exact .inr ⟨now, List.mem_append_right _ (List.mem_singleton_self now), Nat.not_lt.mp hrecent⟩
  · exact .inr ⟨t, List.mem_append_left _ ht, hpast⟩

-- An envelope that passes has not passed before.
theorem Remembers.fresh (h : Remembers log r) {now : Instant} {signed : Signed}
    (hclock : ∀ t ∈ readings log, t.toNanos ≤ now.toNanos)
    (hskew : absDiff now.unix signed.ts ≤ maxSkewSecs)
    (hfresh : r.remembered now signed.nonce = none) :
    signed ∉ (passes log).map Passed.signed := by
  intro hmem
  obtain ⟨p, hp, rfl⟩ := List.mem_map.mp hmem
  have hnear := toNanos_lt_of_skew (h.skew p hp) hskew
  have hmemory : fromSecs 241 < fromSecs nonceMemorySecs := by decide
  rcases h.held p hp with hseen | ⟨t, ht, hpast⟩
  · have hheld : r.remembered now p.signed.nonce = some p.since :=
      remembered_of_recent hseen (by omega)
    rw [hfresh] at hheld
    cases hheld
  · have hle := hclock t ht
    omega

theorem Remembers.noted (h : Remembers log r) {tick : Tick} {index : Nat}
    (hinput : x.input = .resume index tick) (hnoted : Noted tick.now r r' x.output) :
    Remembers (log ++ [x]) r' := by
  have hreadings : readings (log ++ [x]) = readings log ++ [tick.now] := by
    rw [readings_concat, hinput]
    rfl
  generalize hout : x.output = out at hnoted
  cases hnoted with
  | kept hnonces =>
      refine ⟨fun p hp => h.skew p ?_, fun p hp => ?_⟩
      · rwa [passes_concat, hout, List.append_nil] at hp
      · rw [passes_concat, hout, List.append_nil] at hp
        rw [hnonces, hreadings]
        rcases h.held p hp with hseen | ⟨t, ht, hpast⟩
        · exact .inl hseen
        · exact .inr ⟨t, List.mem_append_left _ ht, hpast⟩
  | pruned hnonces =>
      refine ⟨fun p hp => h.skew p ?_, fun p hp => ?_⟩
      · rwa [passes_concat, hout, List.append_nil] at hp
      · rw [passes_concat, hout, List.append_nil] at hp
        rw [hnonces, hreadings]
        exact h.prune hp
  | @passed signed hskew hfresh hnonces =>
      refine ⟨fun p hp => ?_, fun p hp => ?_⟩
      · rw [passes_concat, hout, List.mem_append, List.mem_singleton] at hp
        rcases hp with hp | rfl
        · exact h.skew p hp
        · exact hskew
      · rw [passes_concat, hout, List.mem_append, List.mem_singleton] at hp
        rw [hnonces, hreadings]
        rcases hp with hp | rfl
        · by_cases hsame : p.signed.nonce = signed.nonce
          · -- the nonce was forgotten, or it would not have been taken again
            refine .inr ((h.prune hp).resolve_left fun hheld => ?_)
            rw [hsame, hfresh] at hheld
            cases hheld
          · rw [Function.update_of_ne hsame]
            exact h.prune hp
        · exact .inl (Function.update_self ..)

theorem Remembers.quiet (h : Remembers log r) (hout : x.output = []) : Remembers (log ++ [x]) r := by
  refine ⟨fun p hp => h.skew p ?_, fun p hp => ?_⟩
  · rwa [passes_concat, hout, List.append_nil] at hp
  · rw [passes_concat, hout, List.append_nil] at hp
    rcases h.held p hp with hseen | ⟨t, ht, hpast⟩
    · exact .inl hseen
    · refine .inr ⟨t, ?_, hpast⟩
      rw [readings_concat]
      exact List.mem_append_left _ ht

-- What has passed so far, each envelope once.
def Once (log : List Served) (s : Server) : Prop :=
  Remembers log s.shared ∧ ((readings log).Pairwise (fun t t' => t.toNanos ≤ t'.toNanos) →
    ((passes log).map Passed.signed).Nodup)

theorem Once.turn {s : Server} (a : Turn Arrival Tick) (h : Once log s) :
    Once (log ++ [taken (Server.turn L) s a]) (Server.turn L s a).2 := by
  obtain ⟨hheld, honce⟩ := h
  rcases Threads.turn_cases s a with ⟨hout, hshared⟩ | ⟨index, tick, thread, rfl, -, hturn⟩
  · have hquiet : (taken (Server.turn L) s a).output = [] := hout
    refine ⟨?_, fun hclock => ?_⟩
    · rw [show (Server.turn L s a).2.shared = s.shared from hshared]
      exact hheld.quiet hquiet
    · rw [passes_concat, hquiet, List.append_nil]
      rw [readings_concat] at hclock
      exact honce (List.pairwise_append.mp hclock).1
  · have hnoted : Noted tick.now s.shared _ _ := run_noted (L := L) thread tick
    have hlog : (taken (Server.turn L) s (.resume index tick)).output =
      (thread.run L tick s.shared).1 := congrArg Prod.fst hturn
    have hshared : (Server.turn L s (.resume index tick)).2.shared =
      (thread.run L tick s.shared).2.2 := congrArg (fun p => p.2.shared) hturn
    rw [← hlog, ← hshared] at hnoted
    refine ⟨hheld.noted rfl hnoted, fun hclock => ?_⟩
    rw [readings_concat] at hclock
    obtain ⟨hbefore, -, hlast⟩ := List.pairwise_append.mp hclock
    rw [passes_concat, List.map_append]
    generalize (taken (Server.turn L) s (.resume index tick)).output = out at hnoted ⊢
    cases hnoted with
    | kept | pruned =>
        rw [List.map_nil, List.append_nil]
        exact honce hbefore
    | @passed signed hskew hfresh =>
        have hnew := hheld.fresh (fun t ht => hlast t ht tick.now (by simp [clock, taken])) hskew hfresh
        exact List.concat_eq_append ▸ (honce hbefore).concat hnew

end Run

theorem once_final (L : RelayLibraries) (turns : List (Turn Arrival Tick)) :
    Once (trace (Server.turn L) turns Server.start) (final (Server.turn L) turns Server.start) := by
  refine trace_induct ?_ (fun _ _ a h => h.turn a) turns
  exact ⟨⟨fun p hp => absurd hp List.not_mem_nil, fun p hp => absurd hp List.not_mem_nil⟩,
    fun _ => List.nodup_nil⟩

theorem passes_nodup (L : RelayLibraries) {turns : List (Turn Arrival Tick)} (hclock : Forward turns) :
    ((passes (trace (Server.turn L) turns Server.start)).map Passed.signed).Nodup := by
  refine (once_final L turns).2 ?_
  rw [readings_trace]
  exact hclock

-- In every run of the relay, with any submissions and any order of the handlers' steps, an
-- envelope passes authentication at most once.
theorem authenticated_once (L : RelayLibraries) (turns : List (Turn Arrival Tick))
    (hclock : Forward turns) :
    ((passes (trace (Server.turn L) turns Server.start)).map Passed.signed).Nodup :=
  passes_nodup L hclock

section Announce

variable {L : RelayLibraries}

-- What a device signs verifies with its key while the clock is near.
theorem verify_sign {α : Type} {kind : Kind} {codec : Codec α} (hcodec : codec.RoundTrips)
    (hsign : L.ed25519.Correct) {device : DeviceIdentity L.toLibraries} {a : α} {ts now : UInt64}
    {nonce : FixedBytes 16} {signed : Signed} (hskew : absDiff now ts ≤ maxSkewSecs)
    (h : Signed.sign L.toLibraries kind codec device a ts nonce = .ok signed) :
    signed.verify L.toLibraries kind codec device.ed25519Pub now = .ok (a, nonce) ∧
      codec.decode signed.payload = .ok a ∧ signed.kid = device.kid := by
  unfold Signed.sign at h
  cases hencode : codec.encode a with
  | error e =>
      rw [hencode] at h
      cases h
  | ok body =>
      rw [hencode] at h
      dsimp only at h
      split_ifs at h with hlen
      cases h
      have hverify : ∀ msg, verifyRaw L.toLibraries device.ed25519Pub msg
          (L.ed25519.sign device.signing.sk msg) = .ok () := by
        intro msg
        unfold verifyRaw
        rw [show device.ed25519Pub = L.ed25519.publicKey device.signing.sk from rfl,
          hsign.validKey_publicKey, hsign.verify_sign]
        rfl
      refine ⟨?_, hcodec hencode, rfl⟩
      simp [Signed.verify, hlen, UInt64.not_lt.mpr hskew, DeviceIdentity.kid, hverify,
        hcodec hencode]

theorem takeQuota_ok {kid : FixedBytes 16} {now : Instant} {r : Zbacs.Relay}
    (hcalls : (r.calls kid).length < ratePerMinute) :
    ∃ r', r.takeQuota kid now = (.ok (), r') ∧ r'.devices = r.devices ∧ r'.nonces = r.nonces ∧
      (r'.calls kid).length ≤ (r.calls kid).length + 1 := by
  have hcut : ((r.calls kid).dropWhile fun t => now.durationSince t > fromSecs 3600).length ≤
      (r.calls kid).length := (List.dropWhile_sublist _).length_le
  have hminute := List.length_filter_le (fun t => decide (now.durationSince t ≤ fromSecs 60))
    ((r.calls kid).dropWhile fun t => now.durationSince t > fromSecs 3600)
  unfold Zbacs.Relay.takeQuota
  dsimp only
  rw [if_neg (by simp only [ratePerMinute, ratePerHour] at hcalls ⊢; omega)]
  refine ⟨_, rfl, rfl, rfl, ?_⟩
  dsimp only
  rw [Function.update_self, List.length_append]
  exact Nat.add_le_add_right hcut 1

theorem takeNonce_ok {nonce : FixedBytes 16} {now : Instant} {r : Zbacs.Relay}
    (hnonce : r.nonces nonce = none) :
    ∃ r', r.takeNonce nonce now = (.ok (), r') ∧ r'.devices = r.devices ∧ r'.calls = r.calls ∧
      ∀ n ≠ nonce, r.nonces n = none → r'.nonces n = none := by
  have hfresh : r.remembered now nonce = none := by
    rw [Zbacs.Relay.remembered, hnonce]
    rfl
  unfold Zbacs.Relay.takeNonce
  dsimp only
  rw [hfresh, if_neg (by simp)]
  refine ⟨_, rfl, rfl, rfl, fun n hn hfree => ?_⟩
  dsimp only
  rw [Function.update_of_ne hn, Zbacs.Relay.remembered, hfree]
  rfl

-- A device with calls left and a fresh nonce.
theorem takeQuotaAndNonce_ok {kid nonce : FixedBytes 16} {now : Instant} {r : Zbacs.Relay}
    (hcalls : (r.calls kid).length < ratePerMinute) (hnonce : r.nonces nonce = none) :
    ∃ r', takeQuotaAndNonce kid nonce now r = (.ok (), r') ∧ r'.devices = r.devices ∧
      (r'.calls kid).length ≤ (r.calls kid).length + 1 ∧
      ∀ n ≠ nonce, r.nonces n = none → r'.nonces n = none := by
  obtain ⟨r₁, hquota, hdevices₁, hnonces₁, hcalls₁⟩ := @takeQuota_ok kid now r hcalls
  obtain ⟨r₂, hburnt, hdevices₂, hcalls₂, hfree₂⟩ := @takeNonce_ok nonce now r₁ (hnonces₁ ▸ hnonce)
  refine ⟨r₂, ?_, hdevices₂.trans hdevices₁, hcalls₂ ▸ hcalls₁, hnonces₁ ▸ hfree₂⟩
  simp only [takeQuotaAndNonce, hquota, hburnt]

theorem length_of_fromBytes {body : Bytes} {signed : Signed}
    (h : Signed.fromBytes L.toLibraries body = .ok signed) : ¬body.length > maxBodyLen := by
  intro hlong
  rw [Signed.fromBytes, if_pos hlong] at h
  cases h

-- A device that was never seen is let in.
theorem authenticateAnnounce_new (hcodec : L.announceCodec.RoundTrips) (hsign : L.ed25519.Correct)
    {device : DeviceIdentity L.toLibraries} {a : DeviceAnnounce} {now : Instant}
    {ts : UInt64} {nonce : FixedBytes 16} {signed : Signed} {body : Bytes}
    (hkey : a.ed25519Pub = device.ed25519Pub) (hlabel : a.label = none)
    (hskew : absDiff now.unix ts ≤ maxSkewSecs)
    (h : Signed.sign L.toLibraries .announce L.announceCodec device a ts nonce = .ok signed)
    (hbody : Signed.fromBytes L.toLibraries body = .ok signed) :
    ∃ r, authenticateAnnounce L body now Zbacs.Relay.new = (.ok (signed, a), r) ∧
      r.devices = Zbacs.Relay.new.devices ∧ (r.calls device.kid).length ≤ 1 ∧
      ∀ n ≠ nonce, r.nonces n = none := by
  have hlen := length_of_fromBytes hbody
  obtain ⟨hverify, hpayload, hkid⟩ := verify_sign hcodec hsign hskew h
  have hmine : kidOf L.toLibraries device.ed25519Pub = signed.kid := hkid.symm
  obtain ⟨r, hquota, hdevices, hcalls, hfree⟩ := @takeQuotaAndNonce_ok device.kid nonce now
    Zbacs.Relay.new (Nat.zero_lt_succ _) rfl
  rw [← hkid] at hquota
  refine ⟨r, ?_, hdevices, hcalls, fun n hn => hfree n hn rfl⟩
  simp [authenticateAnnounce, hlen, hbody, hpayload, hkey, hverify, hmine, hlabel, hquota]

end Announce

namespace Reference

def libraries : RelayLibraries := { Proto.Reference.libraries with announceCodec := announceWire.codec }

def device : DeviceIdentity libraries.toLibraries := ⟨Core.Reference.device, ⟨.replicate 32 0x22⟩⟩

def announcement : DeviceAnnounce := ⟨device.x25519Pub, device.ed25519Pub, none, 1000⟩

def tick (secs : UInt64) : Tick := ⟨⟨secs, 0, by decide⟩, .replicate 16 1⟩

-- The same announcement, and again a minute later.
def twice (body : Bytes) : List (Turn Arrival Tick) :=
  [.start (.post .devices body), .resume 0 (tick 1000), .start (.post .devices body),
    .resume 1 (tick 1060)]

theorem twice_forward (body : Bytes) : Forward (twice body) := by
  change List.Pairwise _ [(tick 1000).now, (tick 1060).now]
  rw [List.pairwise_pair]
  decide

-- The announcement arrives at a relay that has seen nothing yet.
theorem announcement_arrives : ∃ signed r,
    Signed.fromBytes libraries.toLibraries (signedWire.put signed) = .ok signed ∧
    Handler.run libraries (.arrived (.post .devices (signedWire.put signed))) (tick 1000)
      Zbacs.Relay.new = ([⟨signed, (tick 1000).now⟩],
        .announcing device.kid ⟨device.ed25519Pub, device.x25519Pub, none⟩, r) ∧
    r.devices = Zbacs.Relay.new.devices ∧ (r.calls device.kid).length ≤ 1 ∧
    ∀ n ≠ .replicate 16 5, r.nonces n = none := by
  have hsize : announceWire.size announcement ≤ 60000 :=
    (announceWire_size announcement).trans (by decide)
  have hcorrect : libraries.ed25519.Correct := Core.Reference.primitives_lawful.ed25519
  obtain ⟨signed, hsign, hbody⟩ := Proto.Reference.sign_ok hsize .announce device 1000 (.replicate 16 5)
  obtain ⟨-, -, hkid⟩ := @verify_sign libraries _ _ _ announceWire.codec_roundTrips hcorrect device
    _ _ 1000 _ _ (by decide) hsign
  obtain ⟨r, hpass, hdevices, hcalls, hfree⟩ := @authenticateAnnounce_new libraries
    announceWire.codec_roundTrips hcorrect device announcement (tick 1000).now _ _ _ _ rfl rfl
    (by decide) hsign hbody
  refine ⟨signed, r, hbody, ?_, hdevices, hcalls, hfree⟩
  simp only [Handler.run, receive, hpass, continueWith, announced, hkid]
  rfl

theorem announced_once : ∃ body signed, Signed.fromBytes libraries.toLibraries body = .ok signed ∧
    Forward (twice body) ∧
    ((passes (trace (Server.turn libraries) (twice body) Server.start)).map Passed.signed).count
      signed = 1 := by
  obtain ⟨signed, r, hbody, hrun, -⟩ := announcement_arrives
  have hmem : signed ∈ (passes (trace (Server.turn libraries) (twice (signedWire.put signed))
      Server.start)).map Passed.signed := by
    simp [passes, twice, trace, taken, Server.turn, Threads.turn, Server.start, hrun]
  exact ⟨signedWire.put signed, signed, hbody, twice_forward _,
    List.count_eq_one_of_mem (authenticated_once libraries _ (twice_forward _)) hmem⟩

end Reference

end Zbacs.Relay
