import Zbacs.Agent.Reference

namespace Zbacs.Agent

open Zbacs.Lib Zbacs.Core Zbacs.Proto Zbacs.Session

section

variable {L : Libraries}

-- The node says yes when the answer is taken: it is asked with a link and a transaction.
def ConfirmedByAnswer (L : Libraries) (asking : Asking) (poll : Poll) (terms : AccessGrantTerms)
    (txHash : Option (FixedBytes 32)) : Prop :=
  asking.chain = true ∧ txHash.isSome ∧ poll.chain (terms.structHash L) = .valid

-- The node says yes in a round that the watcher comes to.
def ConfirmedByWatch (L : Libraries) (chain : Bool) (grantId : FixedBytes 32) (expiry : UInt64)
    (rounds : List Poll) (session : Zbacs.Session) : Prop :=
  chain = true ∧ ∃ pre poll post, rounds = pre ++ poll :: post ∧
    (watchGrant L chain grantId expiry pre session []).ended = none ∧ poll.cancelled = false ∧
    poll.now < expiry ∧ poll.chain grantId = .valid

theorem chainWord_eq_valid {asking : Asking} {poll : Poll} {terms : AccessGrantTerms}
    {txHash : Option (FixedBytes 32)} : chainWord L asking poll terms txHash = .valid ↔
      ConfirmedByAnswer L asking poll terms txHash := by
  unfold chainWord ConfirmedByAnswer
  split_ifs with hasked
  · simp [hasked.1, hasked.2]
  · constructor
    · intro h
      cases h
    · rintro ⟨hchain, htx, -⟩
      exact absurd ⟨hchain, htx⟩ hasked

section Watch

variable {chain : Bool} {grantId : FixedBytes 32} {expiry : UInt64}

-- Whether the watch is still on does not depend on what was confirmed before.
theorem watchGrant_ended (rounds : List Poll) (session : Zbacs.Session)
    (confirmed confirmed' : List (FixedBytes 32)) :
    (watchGrant L chain grantId expiry rounds session confirmed).ended =
      (watchGrant L chain grantId expiry rounds session confirmed').ended := by
  induction rounds generalizing confirmed confirmed' with
  | nil => rfl
  | cons poll rest ih =>
      simp only [watchGrant]
      split_ifs <;> first | rfl | exact ih _ _

theorem confirmedByWatch_cons {poll : Poll} {rest : List Poll} {session : Zbacs.Session} :
    ConfirmedByWatch L chain grantId expiry (poll :: rest) session ↔
      (chain = true ∧ poll.cancelled = false ∧ poll.now < expiry ∧ poll.chain grantId = .valid) ∨
      (watchGrant L chain grantId expiry [poll] session []).ended = none ∧
        ConfirmedByWatch L chain grantId expiry rest session := by
  have happend : ∀ pre, (watchGrant L chain grantId expiry (poll :: pre) session []).ended = none ↔
      (watchGrant L chain grantId expiry [poll] session []).ended = none ∧
        (watchGrant L chain grantId expiry pre session []).ended = none := by
    intro pre
    simp only [watchGrant]
    split_ifs <;> simp [watchGrant_ended pre session _ []]
  constructor
  · rintro ⟨hchain, pre, p, post, hrounds, hpre, hlive⟩
    cases pre with
    | nil =>
        cases hrounds
        exact .inl ⟨hchain, hlive⟩
    | cons first pre =>
        cases hrounds
        obtain ⟨hfirst, hpre⟩ := (happend pre).mp hpre
        exact .inr ⟨hfirst, hchain, pre, p, post, rfl, hpre, hlive⟩
  · rintro (⟨hchain, hlive⟩ | ⟨hfirst, hchain, pre, p, post, rfl, hpre, hlive⟩)
    · exact ⟨hchain, [], poll, rest, rfl, rfl, hlive⟩
    · exact ⟨hchain, poll :: pre, p, post, rfl, (happend pre).mpr ⟨hfirst, hpre⟩, hlive⟩

-- The watch has a yes for the grant if there was one before it or in one of its rounds.
theorem mem_watchGrant (rounds : List Poll) (session : Zbacs.Session)
    (confirmed : List (FixedBytes 32)) :
    grantId ∈ (watchGrant L chain grantId expiry rounds session confirmed).confirmed ↔
      grantId ∈ confirmed ∨ ConfirmedByWatch L chain grantId expiry rounds session := by
  induction rounds generalizing confirmed with
  | nil => simp [watchGrant, ConfirmedByWatch]
  | cons poll rest ih =>
      rw [confirmedByWatch_cons]
      by_cases hcancel : poll.cancelled = true
      · simp [watchGrant, hcancel]
      · by_cases hexpired : expiry ≤ poll.now
        · simp [watchGrant, hcancel, hexpired, UInt64.not_lt.mpr hexpired]
        · have hopen := UInt64.not_le.mp hexpired
          by_cases hrevoke : (poll.inbox.getD []).any (isRevokeFor L · grantId) = true
          · cases chain <;> cases hword : poll.chain grantId <;>
              simp [watchGrant, hcancel, hexpired, hopen, hrevoke, hword]
          · cases chain <;> cases hword : poll.chain grantId <;>
              simp [watchGrant, hcancel, hexpired, hopen, hrevoke, hword, ih]

end Watch

-- A run that writes plaintext: the wait, ended by this answer in this round, the rounds of the
-- watch before the file is opened, and the open. A strict file has been confirmed by then exactly
-- if the node happened to be asked and said yes.
theorem strict_confirmed_iff {asking : Asking} {sending : Sending} {sentAt : UInt64}
    {pre : List Poll} {poll : Poll} {asked : Asked} {permission permission' : Permission}
    {terms : AccessGrantTerms} {bytes : Option Bytes} {txHash : Option (FixedBytes 32)}
    {expiry : UInt64} (hwait : ask L asking sending sentAt pre = none)
    (hask : ask L asking sending sentAt (pre ++ [poll]) = some asked)
    (hacc : Accepted L asking sending.nonce poll permission terms bytes txHash)
    (hgranted : asked.outcome = .granted permission' expiry) (rounds : List Poll)
    {held : Held} (hlater : held.terms = asked.held.terms)
    {device : DeviceKeys L.toPrimitives} {sealed base : Path} {sessionId : String} {env : OpenEnv}
    {fs : Fs} (hwritten : (materialise L sealed held device base sessionId env fs).written ≠ []) :
    ∃ container header headerHash rest, fs.readFile sealed = some container ∧
      readHeader L.toPrimitives (.ofData container env.offer) = .ok (header, headerHash, rest) ∧
      held.terms = some terms ∧
      ((header.body.pol.strict = true → terms.structHash L ∈ (watchGrant L asking.chain
          (terms.structHash L) terms.expiry rounds asked.held.session asked.confirmed).confirmed) ↔
        (header.body.pol.strict = false ∨ ConfirmedByAnswer L asking poll terms txHash ∨
          ConfirmedByWatch L asking.chain (terms.structHash L) terms.expiry rounds
            asked.held.session)) := by
  obtain ⟨session, hheld, hconfirmed⟩ := ask_accepted hwait hask hacc hgranted
  have hanswer : terms.structHash L ∈ asked.confirmed ↔ ConfirmedByAnswer L asking poll terms txHash := by
    rw [hconfirmed, ← chainWord_eq_valid]
    split_ifs with hword <;> simp [hword]
  rcases materialise_cases held device sealed base sessionId env fs with
    ⟨_, _, hnil, _⟩ | ⟨dek, header, headerHash, rest, session', effects', hunlock, _⟩
  · exact absurd hnil hwritten
  obtain ⟨_, terms', container, _, hfile, hread, _⟩ := unlock_eq_ok.mp hunlock
  refine ⟨container, header, headerHash, rest, hfile, hread, by rw [hlater, hheld], ?_⟩
  rw [mem_watchGrant, hanswer]
  cases header.body.pol.strict <;> simp


end

namespace Reference

def strictPolicy : Policy := { Policy.defaultPolicy with strict := true }

-- The one message of the round is the answer.
theorem accepted_answer {target : Target} (txHash : Option (FixedBytes 32)) (chain : Bool)
    (word : ChainAnswer) : Accepted libraries (asking target chain) sending.nonce
      (poll (terms target .edit 1) txHash word) .edit (terms target .edit 1)
      (grantMsg (terms target .edit 1) txHash).envelope txHash :=
  ⟨[], answer (terms target .edit 1) txHash, [], rfl, fun _ he => absurd he List.not_mem_nil,
    classify_answer (.inr rfl) txHash⟩

theorem strict_confirmed_iff_on_chain : ∃ (target : Target) (container : Bytes) (header : Header)
    (headerHash : HeaderHash) (rest : Reader) (asked : Asked),
    ask libraries (asking target true) sending 90
      [poll (terms target .edit 1) (some (.replicate 32 3)) .valid] = some asked ∧
    (materialise libraries sealed asked.held device.keys base "1" (.calm 130) (disk container)).written =
      [1, 2, 3, 4, 5] ∧
    readHeader libraries.toPrimitives (.ofData container (OpenEnv.calm 130).offer) =
      .ok (header, headerHash, rest) ∧
    header.body.pol.strict = true ∧
    (terms target .edit 1).structHash libraries ∈ asked.confirmed := by
  obtain ⟨h, out, headerBytes, frames, -, s⟩ := container_sealed strictPolicy
  let target : Target := ⟨h.body.fid, libraries.sha256 headerBytes, h.body.own⟩
  obtain ⟨asked, hask, hgranted, hterms, -, hwritten⟩ := materialise_asked s
    (show target.headerHash = _ from rfl) (some (.replicate 32 3)) true
    (show ChainAnswer.valid ≠ _ by decide)
  obtain ⟨container, header, headerHash, rest, hfile, hread, -, hstrict⟩ := strict_confirmed_iff
    (show ask libraries (asking target true) sending 90 [] = none from rfl) hask
    (accepted_answer (some (.replicate 32 3)) true .valid) hgranted [] rfl
    (by rw [hwritten]; simp)
  rw [readFile_disk] at hfile
  cases hfile
  obtain ⟨r, hread', -⟩ := s.readHeader_eq libraries_lawful (options_sealable strictPolicy).withinLimits
    (Reader.rest_ofData out (OpenEnv.calm 130).offer)
  rw [hread'] at hread
  cases hread
  have hpolicy : h.body.pol.strict = true := by
    rw [s.header.pol]
    rfl
  exact ⟨target, out, h, _, _, asked, hask, hwritten, hread', hpolicy,
    hstrict.mpr (.inr (.inl ⟨rfl, rfl, rfl⟩)) hpolicy⟩

-- A machine without a link to the chain: the file says it is strict, nobody asks, it opens.
theorem strict_opened_unconfirmed : ∃ (target : Target) (container : Bytes) (header : Header)
    (headerHash : HeaderHash) (rest : Reader) (asked : Asked),
    ask libraries (asking target false) sending 90
      [poll (terms target .edit 1) none .unreachable] = some asked ∧
    readHeader libraries.toPrimitives (.ofData container (OpenEnv.calm 130).offer) =
      .ok (header, headerHash, rest) ∧
    header.body.pol.strict = true ∧ asked.held.terms = some (terms target .edit 1) ∧
    (materialise libraries sealed asked.held device.keys base "1" (.calm 130) (disk container)).written =
      [1, 2, 3, 4, 5] ∧
    asked.confirmed = [] := by
  obtain ⟨h, out, headerBytes, frames, -, s⟩ := container_sealed strictPolicy
  let target : Target := ⟨h.body.fid, libraries.sha256 headerBytes, h.body.own⟩
  obtain ⟨asked, hask, -, hterms, hconfirmed, hwritten⟩ := materialise_asked s
    (show target.headerHash = _ from rfl) none false (show ChainAnswer.unreachable ≠ _ by decide)
  obtain ⟨r, hread, -⟩ := s.readHeader_eq libraries_lawful (options_sealable strictPolicy).withinLimits
    (Reader.rest_ofData out (OpenEnv.calm 130).offer)
  exact ⟨target, out, h, _, r, asked, hask, hread, by rw [s.header.pol]; rfl, hterms, hwritten, hconfirmed⟩

end Reference

end Zbacs.Agent
