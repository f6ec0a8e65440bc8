import Zbacs.Agent.Request

namespace Zbacs.Agent

open Zbacs.Lib Zbacs.Core Zbacs.Proto Zbacs.Session

variable {L : Libraries}

-- What the terms of an accepted answer say about the request they answer.
structure TermsFor (terms : AccessGrantTerms) (permission : Permission) (nonce : FixedBytes 16)
    (target : Target) (ourKeyHash : FixedBytes 32) : Prop where
  file : terms.fileId = target.fid
  version : terms.headerHash = target.headerHash
  device : terms.deviceKeyHash = ourKeyHash
  nonce : terms.requestNonce = nonce
  permission : terms.permission = permission.toByte

theorem checkTerms_eq_granted {terms terms' : AccessGrantTerms} {permission permission' : Permission}
    {nonce : FixedBytes 16} {target : Target} {ourKeyHash : FixedBytes 32}
    {envelope envelope' : Option Bytes} {txHash txHash' : Option (FixedBytes 32)}
    (h : checkTerms terms permission nonce target ourKeyHash envelope txHash =
      .granted permission' terms' envelope' txHash') :
    permission' = permission ∧ TermsFor terms' permission nonce target ourKeyHash := by
  unfold checkTerms at h
  split_ifs at h with hfile hversion hdevice hnonce hpermission
  cases h
  exact ⟨rfl, not_not.mp hfile, not_not.mp hversion, not_not.mp hdevice, not_not.mp hnonce,
    not_not.mp hpermission⟩

theorem checkGrant_eq_granted {grant : GrantMsg} {terms : AccessGrantTerms}
    {permission permission' : Permission} {nonce : FixedBytes 16} {target : Target}
    {ourKeyHash : FixedBytes 32} {envelope : Option Bytes} {txHash : Option (FixedBytes 32)}
    (h : checkGrant L grant permission nonce target ourKeyHash =
      .granted permission' terms envelope txHash) :
    permission' = permission ∧ TermsFor terms permission nonce target ourKeyHash := by
  unfold checkGrant at h
  split at h
  · cases h
  · split at h
    · cases h
    · exact checkTerms_eq_granted h

-- An answer counts as allowed only with terms for this file, this version, this
-- device and this request, and only as reading or editing.
theorem classify_eq_granted {envelope : Proto.Envelope} {nonce : FixedBytes 16} {target : Target}
    {ourKeyHash : FixedBytes 32} {permission : Permission} {terms : AccessGrantTerms}
    {bytes : Option Bytes} {txHash : Option (FixedBytes 32)}
    (h : classify L envelope nonce target ourKeyHash = .granted permission terms bytes txHash) :
    (permission = .readOnly ∨ permission = .edit) ∧
      TermsFor terms permission nonce target ourKeyHash := by
  unfold classify at h
  split_ifs at h
  split at h
  · cases h
  · split_ifs at h
    split at h
    · cases h
    · split_ifs at h
      split at h
      · cases h
      · obtain ⟨rfl, hterms⟩ := checkGrant_eq_granted h
        exact ⟨.inl rfl, hterms⟩
      · obtain ⟨rfl, hterms⟩ := checkGrant_eq_granted h
        exact ⟨.inr rfl, hterms⟩
      · cases h

-- An answer that names another request is not for this one.
theorem classify_notOurs {envelope : Proto.Envelope} {nonce : FixedBytes 16} {target : Target}
    {ourKeyHash : FixedBytes 32} {signed : Signed} {grant : GrantMsg}
    (hsigned : Signed.fromBytes L envelope.body = .ok signed)
    (hgrant : L.grantCodec.decode signed.payload = .ok grant) (hnonce : grant.requestNonce ≠ nonce) :
    classify L envelope nonce target ourKeyHash = .notOurs := by
  simp only [classify, hsigned, hgrant, if_pos hnonce, ite_self]

-- An answer with terms for this request is allowed, as what they permit.
theorem classify_ok {envelope : Proto.Envelope} {nonce : FixedBytes 16} {target : Target}
    {ourKeyHash : FixedBytes 32} {signed : Signed} {grant : GrantMsg} {permission : Permission}
    {bytes : Bytes} {terms : AccessGrantTerms} (hkind : envelope.kind = .grant)
    (hsigned : Signed.fromBytes L envelope.body = .ok signed) (hsignedKind : signed.kind = .grant)
    (hgrant : L.grantCodec.decode signed.payload = .ok grant) (hnonce : grant.requestNonce = nonce)
    (hdecision : grant.decision = permission.toByte)
    (hallowed : permission = .readOnly ∨ permission = .edit) (hbytes : grant.grant = some bytes)
    (hterms : AccessGrantTerms.fromCbor L bytes = .ok terms)
    (hfor : TermsFor terms permission nonce target ourKeyHash) :
    classify L envelope nonce target ourKeyHash =
      .granted permission terms grant.envelope grant.txHash := by
  have hcheck : checkGrant L grant permission nonce target ourKeyHash =
      .granted permission terms grant.envelope grant.txHash := by
    simp only [checkGrant, checkTerms, hbytes, hterms, hfor.file, hfor.version, hfor.device,
      hfor.nonce, hfor.permission, ne_eq, not_true_eq_false, if_false]
  simp only [classify, hkind, hsigned, hsignedKind, hgrant, hnonce, ne_eq, not_true_eq_false,
    if_false, hdecision]
  rcases hallowed with rfl | rfl <;> exact hcheck

section Loop

variable {asking : Asking} {nonce : FixedBytes 16}

-- The first message of a round that is an answer to this request, and it allows it.
structure Accepted (L : Libraries) (asking : Asking) (nonce : FixedBytes 16) (poll : Poll)
    (permission : Permission) (terms : AccessGrantTerms) (bytes : Option Bytes)
    (txHash : Option (FixedBytes 32)) : Prop where
  message : ∃ before envelope after, poll.inbox.getD [] = before ++ envelope :: after ∧
    (∀ e ∈ before, classify L e nonce asking.target asking.ourKeyHash = .notOurs) ∧
    classify L envelope nonce asking.target asking.ourKeyHash = .granted permission terms bytes txHash

theorem failAsk_outcome (path : String) (reason : Problem) (now : UInt64) {permission : Permission}
    {expiry : UInt64} : (failAsk path reason now).outcome ≠ .granted permission expiry := by
  simp [failAsk]

-- What a taken grant leaves behind: the session has accepted it inside its window,
-- and the chain did not deny it.
theorem takeGrant_outcome {poll : Poll} {permission permission' : Permission}
    {terms : AccessGrantTerms} {bytes : Option Bytes} {txHash : Option (FixedBytes 32)}
    {expiry : UInt64}
    (h : (takeGrant L asking poll permission terms bytes txHash).outcome =
      .granted permission' expiry) :
    ∃ session effects,
      Session.new.apply (.granted permission terms.notBefore terms.expiry terms.maxOpens) poll.now =
        .ok (session, effects) ∧
      (takeGrant L asking poll permission terms bytes txHash).held = ⟨session, some terms, bytes⟩ ∧
      (takeGrant L asking poll permission terms bytes txHash).confirmed =
        if chainWord L asking poll terms txHash = .valid then [terms.structHash L] else [] := by
  unfold takeGrant at h ⊢
  by_cases hword : chainWord L asking poll terms txHash = .invalid
  · rw [if_pos hword] at h
    exact absurd h (failAsk_outcome _ _ _)
  · rw [if_neg hword] at h
    simp only [if_neg hword]
    cases happly : Session.new.apply
        (.granted permission terms.notBefore terms.expiry terms.maxOpens) poll.now with
    | error e =>
        rw [happly] at h
        exact absurd h (failAsk_outcome _ _ _)
    | ok res =>
        obtain ⟨session, effects⟩ := res
        exact ⟨session, effects, rfl, rfl, rfl⟩

theorem settle_outcome {poll : Poll} {envelope : Proto.Envelope} {asked : Asked}
    {permission : Permission} {expiry : UInt64} (h : settle L asking nonce poll envelope = some asked)
    (hout : asked.outcome = .granted permission expiry) :
    ∃ permission terms bytes txHash,
      classify L envelope nonce asking.target asking.ourKeyHash =
        .granted permission terms bytes txHash ∧
      asked = takeGrant L asking poll permission terms bytes txHash := by
  unfold settle at h
  split at h
  · cases h
  · cases h
    cases hout
  · cases h
    exact absurd hout (failAsk_outcome _ _ _)
  · rename_i permission terms bytes txHash hclass
    cases h
    exact ⟨permission, terms, bytes, txHash, hclass, rfl⟩

theorem settle_eq_none {poll : Poll} {envelope : Proto.Envelope} :
    settle L asking nonce poll envelope = none ↔
      classify L envelope nonce asking.target asking.ourKeyHash = .notOurs := by
  unfold settle
  split
  all_goals
    rename_i hclass
    simp [hclass]

-- An accepted answer is what its round comes to.
theorem Accepted.findSome?_settle {poll : Poll} {permission : Permission} {terms : AccessGrantTerms}
    {bytes : Option Bytes} {txHash : Option (FixedBytes 32)}
    (h : Accepted L asking nonce poll permission terms bytes txHash) :
    (poll.inbox.getD []).findSome? (settle L asking nonce poll) =
      some (takeGrant L asking poll permission terms bytes txHash) := by
  obtain ⟨before, envelope, after, hinbox, hbefore, hclass⟩ := h.message
  refine List.findSome?_eq_some_iff.mpr ⟨before, envelope, after, hinbox, ?_, ?_⟩
  · simp only [settle, hclass]
  · exact fun e he => settle_eq_none.mpr (hbefore e he)

-- A wait that is not over after its first rounds goes on with the others.
theorem askLoop_append {pre : List Poll} {nudged : Bool}
    (h : askLoop L asking nonce pre nudged = none) : ∃ nudged' updates, ∀ rest,
      askLoop L asking nonce (pre ++ rest) nudged = (askLoop L asking nonce rest nudged').map
        fun asked => { asked with updates := updates ++ asked.updates } := by
  induction pre generalizing nudged with
  | nil => exact ⟨nudged, [], fun rest => by simp⟩
  | cons poll pre ih =>
      rw [askLoop] at h
      split_ifs at h with hcancel hgiveup
      simp only at h
      split at h
      · cases h
      · rename_i hnone
        obtain ⟨nudged', updates, hrest⟩ := ih (Option.map_eq_none_iff.mp h)
        refine ⟨nudged', (if !nudged && decide (asking.limits.nudgeAfter ≤ poll.waited) then
          [Update.new asking.path .nudge] else []) ++ updates, fun rest => ?_⟩
        rw [List.cons_append, askLoop, if_neg hcancel, if_neg hgiveup]
        simp only [hnone, hrest, Option.map_map]
        congr 1
        funext asked
        simp only [Function.comp_apply, List.append_assoc]

-- The wait ends in the first round whose inbox settles it. Induction on the rounds.
theorem askLoop_granted {polls : List Poll} {nudged : Bool} {asked : Asked} {permission : Permission}
    {expiry : UInt64} (h : askLoop L asking nonce polls nudged = some asked)
    (hout : asked.outcome = .granted permission expiry) :
    ∃ pre poll post permission terms bytes txHash, polls = pre ++ poll :: post ∧
      askLoop L asking nonce pre nudged = none ∧
      askLoop L asking nonce (pre ++ [poll]) nudged = some asked ∧
      Accepted L asking nonce poll permission terms bytes txHash ∧
      asked.outcome = (takeGrant L asking poll permission terms bytes txHash).outcome ∧
      asked.held = (takeGrant L asking poll permission terms bytes txHash).held ∧
      asked.confirmed = (takeGrant L asking poll permission terms bytes txHash).confirmed := by
  induction polls generalizing nudged asked with
  | nil => cases h
  | cons poll rest ih =>
      rw [askLoop] at h
      split_ifs at h with hcancel hgiveup
      · cases h
        cases hout
      · cases h
        cases hout
      · simp only at h
        split at h
        · rename_i found hfound
          cases h
          obtain ⟨before, envelope, after, hinbox, hsettle, hbefore⟩ :=
            List.findSome?_eq_some_iff.mp hfound
          obtain ⟨permission, terms, bytes, txHash, hclass, rfl⟩ := settle_outcome hsettle hout
          refine ⟨[], poll, rest, permission, terms, bytes, txHash, rfl, rfl, ?_,
            ⟨before, envelope, after, hinbox, fun e he => settle_eq_none.mp (hbefore e he), hclass⟩,
            rfl, rfl, rfl⟩
          simp only [List.nil_append, askLoop, hcancel, hgiveup, hfound, Bool.false_eq_true, if_false]
        · rename_i hnone
          obtain ⟨inner, hinner, rfl⟩ := Option.map_eq_some_iff.mp h
          obtain ⟨pre, p, post, permission, terms, bytes, txHash, rfl, hpre, hfirst, hacc, ho, hh,
            hc⟩ := ih hinner hout
          refine ⟨poll :: pre, p, post, permission, terms, bytes, txHash, rfl, ?_, ?_, hacc, ho, hh,
            hc⟩
          · simp only [askLoop, hcancel, hgiveup, hnone, hpre, Bool.false_eq_true, if_false,
              Option.map_none]
          · simp only [List.cons_append, askLoop, hcancel, hgiveup, hnone, hfirst,
              Bool.false_eq_true, if_false, Option.map_some]

-- A wait that ends in a grant: the round that ended it, and the answer in it.
theorem ask_granted {asking : Asking} {sending : Sending} {sentAt : UInt64} {polls : List Poll}
    {asked : Asked} {permission : Permission} {expiry : UInt64}
    (hask : ask L asking sending sentAt polls = some asked)
    (hgranted : asked.outcome = .granted permission expiry) :
    ∃ pre poll post permission terms bytes txHash session effects, polls = pre ++ poll :: post ∧
      ask L asking sending sentAt pre = none ∧
      ask L asking sending sentAt (pre ++ [poll]) = some asked ∧
      Accepted L asking sending.nonce poll permission terms bytes txHash ∧
      Session.new.apply (.granted permission terms.notBefore terms.expiry terms.maxOpens) poll.now =
        .ok (session, effects) ∧
      asked.held = ⟨session, some terms, bytes⟩ ∧
      asked.confirmed = if chainWord L asking poll terms txHash = .valid then [terms.structHash L]
        else [] := by
  unfold ask at hask
  split at hask
  · cases hask
    exact absurd hgranted (failAsk_outcome _ _ _)
  · rename_i hannounced
    split at hask
    · cases hask
      exact absurd hgranted (failAsk_outcome _ _ _)
    · rename_i hsent
      obtain ⟨inner, hloop, rfl⟩ := Option.map_eq_some_iff.mp hask
      obtain ⟨pre, poll, post, permission, terms, bytes, txHash, hpolls, hpre, hfirst, hacc, ho, hh,
        hc⟩ := askLoop_granted hloop hgranted
      obtain ⟨session, effects, happly, hheld, hconfirmed⟩ := takeGrant_outcome (ho ▸ hgranted)
      refine ⟨pre, poll, post, permission, terms, bytes, txHash, session, effects, hpolls, ?_, ?_,
        hacc, happly, hh.trans hheld, hc.trans hconfirmed⟩
      · simp only [ask, hannounced, hsent, hpre, Option.map_none]
      · simp only [ask, hannounced, hsent, hfirst, Option.map_some]

-- The round that ends the wait with an accepted answer: what is held then, and whether the chain
-- has confirmed it.
theorem ask_accepted {sending : Sending} {sentAt : UInt64} {pre : List Poll} {poll : Poll}
    {asked : Asked} {permission permission' : Permission} {terms : AccessGrantTerms}
    {bytes : Option Bytes} {txHash : Option (FixedBytes 32)} {expiry : UInt64}
    (hwait : ask L asking sending sentAt pre = none)
    (hask : ask L asking sending sentAt (pre ++ [poll]) = some asked)
    (hacc : Accepted L asking sending.nonce poll permission terms bytes txHash)
    (hgranted : asked.outcome = .granted permission' expiry) :
    ∃ session, asked.held = ⟨session, some terms, bytes⟩ ∧
      asked.confirmed = if chainWord L asking poll terms txHash = .valid then [terms.structHash L]
        else [] := by
  simp only [ask] at hwait hask
  split at hwait
  · cases hwait
  · split at hwait
    · cases hwait
    · rename_i hannounced _ hsent
      obtain ⟨nudged, updates, happend⟩ := askLoop_append (Option.map_eq_none_iff.mp hwait)
      simp only [hannounced, hsent, happend, askLoop, hacc.findSome?_settle] at hask
      by_cases hcancel : poll.cancelled = true
      · rw [if_pos hcancel] at hask
        cases hask
        cases hgranted
      · by_cases hgiveup : asking.limits.giveUpAfter ≤ poll.waited
        · rw [if_neg hcancel, if_pos hgiveup] at hask
          cases hask
          cases hgranted
        · rw [if_neg hcancel, if_neg hgiveup] at hask
          cases hask
          obtain ⟨session, effects, -, hheld, hconfirmed⟩ := takeGrant_outcome hgranted
          exact ⟨session, hheld, hconfirmed⟩

-- One round with one usable answer in it is enough.
theorem ask_ok {sending : Sending} {sentAt : UInt64} {poll : Poll} {envelope : Proto.Envelope}
    {permission : Permission} {terms : AccessGrantTerms} {bytes : Option Bytes}
    {txHash : Option (FixedBytes 32)} {session : Zbacs.Session} {effects : List Effect}
    (hannounced : sending.announced = .ok ()) (hsent : sending.sent = .ok ())
    (hcancel : poll.cancelled = false) (hwaited : poll.waited < asking.limits.giveUpAfter)
    (hinbox : poll.inbox = some [envelope])
    (hclass : classify L envelope sending.nonce asking.target asking.ourKeyHash =
      .granted permission terms bytes txHash)
    (hchain : chainWord L asking poll terms txHash ≠ .invalid)
    (happly : Session.new.apply (.granted permission terms.notBefore terms.expiry terms.maxOpens)
      poll.now = .ok (session, effects)) :
    ∃ asked, ask L asking sending sentAt [poll] = some asked ∧
      asked.outcome = .granted permission terms.expiry ∧ asked.held = ⟨session, some terms, bytes⟩ ∧
      asked.confirmed = if chainWord L asking poll terms txHash = .valid then [terms.structHash L]
        else [] := by
  have hacc : Accepted L asking sending.nonce poll permission terms bytes txHash :=
    ⟨[], envelope, [], by rw [hinbox]; rfl, fun e he => absurd he List.not_mem_nil, hclass⟩
  have hfound := hacc.findSome?_settle
  refine ⟨_, by simp only [ask, hannounced, hsent, askLoop, hcancel, Bool.false_eq_true, if_false,
    if_neg (Nat.not_le.mpr hwaited), hfound, Option.map_some]; rfl, ?_, ?_⟩
  · simp only [takeGrant, if_neg hchain, happly]
  · simp only [takeGrant, if_neg hchain, happly, and_self]

end Loop

end Zbacs.Agent
