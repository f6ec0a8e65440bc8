import Zbacs.Agent.Desk
import Zbacs.Agent.Owner.Notices

namespace Zbacs.Agent

open Zbacs.Lib Zbacs.Core Zbacs.Proto

-- What of a call matters to the others: it has not begun, it holds a request it may still answer,
-- its answer is out and the request not yet removed, or it is done with the request.
inductive Progress where
  | waiting
  | holding (p : PendingRequest)
  | delivered
  | closed

def Stage.progress : Stage → Progress
  | .called => .waiting
  | .preparing p | .answering p => .holding p
  | .signing a | .wrapping a _ => .holding a.pending
  | .writing w | .clearing w _ _ | .sending w _ _ => .holding w.pending
  | .recording _ _ | .removing _ => .delivered
  | .noting _ | .ended _ => .closed

-- The terms are for the file and the version the request names, and the request was for the
-- version on record when it came.
structure TermsOf (p : PendingRequest) (terms : AccessGrantTerms) : Prop where
  fileId : terms.fileId = p.request.fid
  headerHash : terms.headerHash = p.request.headerHash
  sameVersion : p.sameVersion = true

def DeskEvent.terms : DeskEvent → Option AccessGrantTerms
  | .shown _ => none
  | .signed _ _ terms | .submitted _ _ terms => some terms
  | .sent _ out => out.terms

-- The request a call's event answers, and the id the call was made with.
def DeskEvent.answers : DeskEvent → Option (String × AccessRequest)
  | .shown _ => none
  | .signed id request _ | .submitted id request _ => some (id, request)
  | .sent id out => some (id, out.request)

def DeskEvent.sentOut : DeskEvent → Option Sent
  | .sent _ out => some out
  | _ => none

def DeskEvent.card : DeskEvent → Option Arrived
  | .shown arrived => some arrived
  | _ => none

-- An event of a call that answers this request.
structure About (id : String) (p : PendingRequest) (e : DeskEvent) : Prop where
  answers : e.answers = some (id, p.request)
  terms : ∀ terms, e.terms = some terms → TermsOf p terms
  nonce : ∀ out, e.sentOut = some out → out.message.requestNonce = p.request.nonce

-- All that one step of a call can do.
inductive Moved (d : Deciding) (s : AppState) : List DeskEvent → Deciding → AppState → Prop where
  | took {d' : Deciding} {p : PendingRequest} (hprogress : d.stage.progress = .waiting)
      (hp : s.approvals.pending.lookup d.call.id = some p) (hprogress' : d'.stage.progress = .holding p)
      (hcall : d'.call.id = d.call.id) : Moved d s [] d' s
  | missed {d' : Deciding} (hprogress : d.stage.progress = .waiting) (hprogress' : d'.stage.progress = .closed)
      (hcall : d'.call.id = d.call.id) : Moved d s [] d' s
  | worked {d' : Deciding} {p : PendingRequest} {out : List DeskEvent} {l : Ledger}
      (hprogress : d.stage.progress = .holding p)
      (hprogress' : d'.stage.progress = .holding p ∨ d'.stage.progress = .closed)
      (hcall : d'.call.id = d.call.id) (hfiles : l.files = s.ledger.files)
      (habout : ∀ e ∈ out, About d.call.id p e ∧ e.sentOut = none) :
      Moved d s out d' { s with ledger := l }
  | delivered {d' : Deciding} {p : PendingRequest} {out : Sent} (hprogress : d.stage.progress = .holding p)
      (hprogress' : d'.stage.progress = .delivered) (hcall : d'.call.id = d.call.id)
      (habout : About d.call.id p (.sent d.call.id out)) : Moved d s [.sent d.call.id out] d' s
  | lost {d' : Deciding} {p : PendingRequest} {out : Sent} {e : ClientError}
      (hprogress : d.stage.progress = .holding p) (hprogress' : d'.stage.progress = .closed)
      (hcall : d'.call.id = d.call.id) (hrelay : d.call.env.relay = .error e)
      (hlost : d.call.lost = true) (habout : About d.call.id p (.sent d.call.id out)) :
      Moved d s [.sent d.call.id out] d' s
  | recorded {d' : Deciding} {l : Ledger} (hprogress : d.stage.progress = .delivered)
      (hprogress' : d'.stage.progress = .delivered) (hcall : d'.call.id = d.call.id)
      (hfiles : l.files = s.ledger.files) : Moved d s [] d' { s with ledger := l }
  | removed {d' : Deciding} (hprogress : d.stage.progress = .delivered)
      (hprogress' : d'.stage.progress = .closed) (hcall : d'.call.id = d.call.id) :
      Moved d s [] d' { s with approvals := s.approvals.remove d.call.id }
  | settled {d' : Deciding} {a : Approvals} (hprogress : d.stage.progress = .closed)
      (hprogress' : d'.stage.progress = .closed) (hcall : d'.call.id = d.call.id)
      (hpending : a.pending = s.approvals.pending) : Moved d s [] d' { s with approvals := a }

section Files

variable {l : Ledger}

-- The nonce, the queue of versions and the list of approvals are kept beside the files.
theorem update_files {α : Type} {io : LedgerIo} {change : Ledger → Except LedgerError (α × Ledger)}
    (h : ∀ out l', change l = .ok (out, l') → l'.files = l.files) :
    (Ledger.update io change l).2.files = l.files :=
  Ledger.update_invariant (fun l' => l'.files = l.files) rfl h

theorem takeNonce_files (env : AnswerEnv) : (takeNonce env l).2.files = l.files := by
  unfold takeNonce
  split
  · rfl
  · exact update_files (by rintro _ _ ⟨⟩; rfl)

theorem clearDeferredBumps_files (io : LedgerIo) (landed : List (String × String)) :
    (l.clearDeferredBumps io landed).2.files = l.files :=
  update_files (by rintro _ _ ⟨⟩; rfl)

theorem recordGrant_files (io : LedgerIo) (grant : Grant) :
    (l.recordGrant io grant).2.files = l.files :=
  update_files (by rintro _ _ ⟨⟩; rfl)

theorem bumpVersion_files (link : ChainLink) (env : ChainEnv) (fileId headerHash : FixedBytes 32) :
    (link.bumpVersion env fileId headerHash l).2.files = l.files := by
  have hdefer : (l.deferBump env.writeIo (hexEncode fileId.bytes) (hexEncode headerHash.bytes)).2.files =
      l.files := update_files (by rintro _ _ ⟨⟩; rfl)
  unfold ChainLink.bumpVersion
  split
  · rfl
  · split
    · split <;> rename_i h <;> rw [h] at hdefer <;> exact hdefer
    · rfl

end Files

section Moves

variable {L : Libraries} {machine : OwnerMachine L} {d : Deciding} {s : AppState}

theorem Allowing.sameVersion (a : Allowing) : a.pending.sameVersion = true := by
  simp [PendingRequest.sameVersion, a.recorded, a.current]

theorem Allowing.termsOf (a : Allowing) (call : DecideCall) : TermsOf a.pending (a.terms L call) :=
  ⟨rfl, rfl, a.sameVersion⟩

theorem deliver_moved {p : PendingRequest} (hprogress : d.stage.progress = .holding p) {out : Sent}
    (habout : About d.call.id p (.sent d.call.id out)) {next : Stage}
    (hnext : next.progress = .delivered) :
    Moved d s (d.deliver out next s).1 (d.deliver out next s).2.1 (d.deliver out next s).2.2 := by
  unfold Deciding.deliver
  split
  · exact .delivered hprogress hnext rfl habout
  · rename_i e hrelay
    split
    · rename_i hlost
      exact .lost hprogress rfl rfl hrelay hlost habout
    · exact .worked hprogress (.inr rfl) rfl rfl (by simp)

theorem begin_moved {p : PendingRequest} (hprogress : d.stage.progress = .holding p) :
    Moved d s (d.begin p s).1 (d.begin p s).2.1 (d.begin p s).2.2 := by
  unfold Deciding.begin
  split
  · refine deliver_moved hprogress ⟨rfl, ?_, ?_⟩ rfl
    · rintro terms ⟨⟩
    · rintro out ⟨⟩
      rfl
  · split
    · exact .worked hprogress (.inr rfl) rfl rfl (by simp)
    · have hfiles := takeNonce_files (l := s.ledger) d.call.env
      split <;> rename_i hnonce <;> rw [hnonce] at hfiles
      · exact .worked hprogress (.inr rfl) rfl hfiles (by simp)
      · exact .worked hprogress (.inl rfl) rfl hfiles (by simp)

theorem sign_moved {a : Allowing} (hprogress : d.stage.progress = .holding a.pending) :
    Moved d s (d.sign machine a s).1 (d.sign machine a s).2.1 (d.sign machine a s).2.2 := by
  unfold Deciding.sign
  dsimp only
  split
  · exact .worked hprogress (.inl rfl) rfl rfl (by simp)
  · split
    · exact .worked hprogress (.inr rfl) rfl rfl (by simp)
    · refine .worked hprogress (.inl rfl) rfl rfl ?_
      intro e he
      obtain rfl := List.mem_singleton.mp he
      refine ⟨⟨rfl, ?_, ?_⟩, rfl⟩
      · rintro terms ⟨⟩
        exact a.termsOf d.call
      · rintro out ⟨⟩

theorem wrap_moved {a : Allowing} (hprogress : d.stage.progress = .holding a.pending)
    (ownerSig : Option Bytes) : Moved d s (d.wrap machine a ownerSig s).1
      (d.wrap machine a ownerSig s).2.1 (d.wrap machine a ownerSig s).2.2 := by
  unfold Deciding.wrap
  split
  · exact .worked hprogress (.inr rfl) rfl rfl (by simp)
  · exact .worked hprogress (.inl rfl) rfl rfl (by simp)

theorem write_moved {w : Wrapped} (hprogress : d.stage.progress = .holding w.pending) :
    Moved d s (d.write L w s).1 (d.write L w s).2.1 (d.write L w s).2.2 := by
  have habout : ∀ e ∈ [DeskEvent.submitted d.call.id w.pending.request (w.terms L d.call)],
      About d.call.id w.pending e ∧ e.sentOut = none := by
    intro e he
    obtain rfl := List.mem_singleton.mp he
    refine ⟨⟨rfl, ?_, ?_⟩, rfl⟩
    · rintro terms ⟨⟩
      exact w.termsOf d.call
    · rintro out ⟨⟩
  unfold Deciding.write
  split
  · exact .worked hprogress (.inl rfl) rfl rfl (by simp)
  · dsimp only
    split
    · exact .worked hprogress (.inl rfl) rfl rfl habout
    · split
      · exact .worked hprogress (.inr rfl) rfl rfl habout
      · exact .worked hprogress (.inl rfl) rfl rfl habout

theorem send_moved {w : Wrapped} (hprogress : d.stage.progress = .holding w.pending)
    (tx : Option (FixedBytes 32)) (stillPending : List StillPending) :
    Moved d s (d.send L w tx stillPending s).1 (d.send L w tx stillPending s).2.1
      (d.send L w tx stillPending s).2.2 := by
  unfold Deciding.send
  split
  · exact .worked hprogress (.inr rfl) rfl rfl (by simp)
  · refine deliver_moved hprogress ⟨rfl, ?_, ?_⟩ rfl
    · rintro terms ⟨⟩
      exact w.termsOf d.call
    · rintro out ⟨⟩
      rfl

theorem Deciding.run_moved (machine : OwnerMachine L) (d : Deciding) (s : AppState) :
    Moved d s (d.run machine s).1 (d.run machine s).2.1 (d.run machine s).2.2 := by
  obtain ⟨call, stage⟩ := d
  cases stage with
  | called =>
      unfold Deciding.run
      dsimp only
      split
      · exact .missed rfl rfl rfl
      · rename_i p hp
        exact .took rfl hp rfl rfl
  | preparing p =>
      unfold Deciding.run
      dsimp only
      split
      · exact .worked rfl (.inr rfl) rfl rfl (by simp)
      · exact .worked rfl (.inl rfl) rfl rfl (by simp)
  | answering p => exact begin_moved rfl
  | signing a => exact sign_moved rfl
  | wrapping a ownerSig => exact wrap_moved rfl ownerSig
  | writing w => exact write_moved rfl
  | clearing w tx landed =>
      refine .worked rfl (.inl rfl) rfl ?_ (by simp [Deciding.run])
      dsimp only
      split
      · rfl
      · exact clearDeferredBumps_files _ _
  | sending w tx stillPending => exact send_moved rfl tx stillPending
  | recording grant answered => exact .recorded rfl rfl rfl (recordGrant_files _ _)
  | removing answered => exact .removed rfl rfl rfl
  | noting answered =>
      refine .settled rfl rfl rfl ?_
      dsimp only
      split <;> rfl
  | ended result => exact .settled rfl rfl rfl rfl

-- The events of a call are about the request it holds.
theorem moved_about {d' : Deciding} {s' : AppState} {out : List DeskEvent}
    (h : Moved d s out d' s') {e : DeskEvent} (he : e ∈ out) :
    ∃ p, d.stage.progress = .holding p ∧ About d.call.id p e := by
  cases h with
  | worked hprogress _ _ _ habout => exact ⟨_, hprogress, (habout e he).1⟩
  | delivered hprogress _ _ habout =>
      obtain rfl := List.mem_singleton.mp he
      exact ⟨_, hprogress, habout⟩
  | lost hprogress _ _ _ _ habout =>
      obtain rfl := List.mem_singleton.mp he
      exact ⟨_, hprogress, habout⟩
  | took | missed | recorded | removed | settled => cases he

end Moves

section Alone

variable {L : Libraries} {machine : OwnerMachine L} {call : DecideCall} {s s' : AppState}

-- A call that nobody interrupts.
def Deciding.alone (machine : OwnerMachine L) :
    Nat → Deciding → AppState → List DeskEvent × Deciding × AppState
  | 0, d, s => ([], d, s)
  | n + 1, d, s =>
    let next := d.run machine s
    let rest := Deciding.alone machine n next.2.1 next.2.2
    (next.1 ++ rest.1, rest.2.1, rest.2.2)

-- It comes to what an answer in one piece comes to: the same messages, the same record, and the
-- request gone if there was an answer.
structure Answers (call : DecideCall) (s : AppState) (step : AnswerStep)
    (alone : List DeskEvent × Deciding × AppState) : Prop where
  sent : alone.1.filterMap DeskEvent.sentOut = step.sent
  result : alone.2.1.stage = .ended (step.result.mapError .answer)
  ledger : alone.2.2.ledger = step.ledger
  pending : alone.2.2.approvals.pending = match step.result with
    | .ok _ => s.approvals.pending.erase call.id
    | .error _ => s.approvals.pending

theorem alone_ended (n : Nat) (result : Except DecideProblem Answered) :
    Deciding.alone machine n ⟨call, .ended result⟩ s = ([], ⟨call, .ended result⟩, s) := by
  induction n with
  | zero => rfl
  | succ n ih => simp only [Deciding.alone, Deciding.run, ih, List.append_nil]

theorem alone_quiet {n : Nat} {d d' : Deciding} (hrun : d.run machine s = ([], d', s')) :
    (d.alone machine (n + 1) s).1 = (d'.alone machine n s').1 := by
  rw [Deciding.alone, hrun]
  rfl

theorem alone_failed (n : Nat) (problem : ApproveProblem) :
    Answers call s ⟨.error problem, s.ledger, []⟩
      (Deciding.alone machine n ⟨call, .ended (.error (.answer problem))⟩ s) := by
  rw [alone_ended]
  exact ⟨rfl, rfl, rfl, rfl⟩

theorem alone_removing (n : Nat) (answered : Answered) :
    Answers call s ⟨.ok answered, s.ledger, []⟩
      (Deciding.alone machine (n + 2) ⟨call, .removing answered⟩ s) := by
  have hnoted : ∀ a : Approvals,
      (if call.decision = .deny then a else a.push call.doneAt).pending = a.pending := by
    intro a
    split <;> rfl
  simp only [Deciding.alone, Deciding.run, Deciding.goTo, alone_ended]
  exact ⟨rfl, rfl, rfl, hnoted _⟩

-- A step that puts out no message and leaves the requests alone.
theorem Answers.after {n : Nat} {d d' : Deciding} {out : List DeskEvent} {step : AnswerStep}
    (hrun : d.run machine s = (out, d', s')) (hquiet : out.filterMap DeskEvent.sentOut = [])
    (hpending : s'.approvals.pending = s.approvals.pending)
    (h : Answers call s' step (Deciding.alone machine n d' s')) :
    Answers call s step (Deciding.alone machine (n + 1) d s) := by
  simp only [Deciding.alone, hrun]
  refine ⟨?_, h.result, h.ledger, ?_⟩
  · rw [List.filterMap_append, hquiet, List.nil_append]
    exact h.sent
  · rw [← hpending]
    exact h.pending

theorem alone_sending (n : Nat) (w : Wrapped) (tx : Option (FixedBytes 32))
    (stillPending : List StillPending) (hlost : call.lost = false) :
    Answers call s (sendGrant L w.pending w.entry call.decision (w.terms L call) w.ownerSig w.envelope
        tx stillPending call.confirmation call.env s.ledger)
      (Deciding.alone machine (n + 4) ⟨call, .sending w tx stillPending⟩ s) := by
  unfold sendGrant
  cases hcbor : (w.terms L call).toCbor L with
  | error e =>
      have hrun : Deciding.run machine ⟨call, .sending w tx stillPending⟩ s =
          ([], ⟨call, .ended (.error (.answer .failed))⟩, s) := by
        simp only [Deciding.run, Deciding.send, hcbor, Deciding.fail]
      exact .after hrun rfl rfl (alone_failed (n + 3) .failed)
  | ok bytes =>
      cases hrelay : call.env.relay with
      | error e =>
          have hrun : Deciding.run machine ⟨call, .sending w tx stillPending⟩ s =
              ([], ⟨call, .ended (.error (.answer .relayUnreachable))⟩, s) := by
            simp [Deciding.run, Deciding.send, hcbor, Deciding.deliver, hrelay, hlost, Deciding.fail]
          exact .after hrun rfl rfl (alone_failed (n + 3) .relayUnreachable)
      | ok =>
          have hrest := @alone_removing L machine call
            { s with ledger := (s.ledger.recordGrant call.env.recordIo (w.grant L call tx)).2 } n
            (w.answered L call tx stillPending)
          rw [Deciding.alone]
          simp only [Deciding.run, Deciding.send, hcbor, Deciding.deliver, hrelay, Deciding.goTo]
          have hrecorded := hrest.after (n := n + 2)
            (d := ⟨call, .recording (w.grant L call tx) (w.answered L call tx stillPending)⟩) (s := s)
            rfl rfl rfl
          refine ⟨?_, hrecorded.result, hrecorded.ledger, hrecorded.pending⟩
          rw [List.filterMap_append, hrecorded.sent]
          rfl

theorem alone_writing (n : Nat) (w : Wrapped) (hlost : call.lost = false) :
    Answers call s (match writeGrant call.env (w.terms L call) s.ledger with
        | (.error e, l) => ⟨.error e, l, []⟩
        | (.ok (tx, stillPending), l) => sendGrant L w.pending w.entry call.decision (w.terms L call)
            w.ownerSig w.envelope tx stillPending call.confirmation call.env l)
      (Deciding.alone machine (n + 6) ⟨call, .writing w⟩ s) := by
  unfold writeGrant
  cases hchain : call.env.onChain with
  | none =>
      have hrun : Deciding.run machine ⟨call, .writing w⟩ s =
          ([], ⟨call, .sending w none [.chainGrant]⟩, s) := by
        simp only [Deciding.run, Deciding.write, hchain, Deciding.goTo]
      exact .after hrun rfl rfl (alone_sending (n + 1) w none [.chainGrant] hlost)
  | some link =>
      have hwrites : link.writes = true := by
        obtain ⟨-, hwrites⟩ := Option.filter_eq_some_iff.mp hchain
        exact hwrites
      simp only [ChainLink.write, hwrites, Bool.not_true, Bool.false_eq_true, if_false]
      cases hsubmit : call.env.chain.submit ((s.ledger.waitingBumps call.env.chain.readIo).filterMap
          decodeBump ++ [.grant (w.terms L call)]) with
      | ok tx =>
          have hrun : Deciding.run machine ⟨call, .writing w⟩ s =
              ([.submitted call.id w.pending.request (w.terms L call)],
                ⟨call, .clearing w tx (s.ledger.waitingBumps call.env.chain.readIo)⟩, s) := by
            simp only [Deciding.run, Deciding.write, hchain, hsubmit, Deciding.goTo]
          exact .after hrun rfl rfl (.after rfl rfl rfl (alone_sending n w (some tx) [] hlost))
      | error e =>
          by_cases hsmart : call.env.smart = true
          · have hrun : Deciding.run machine ⟨call, .writing w⟩ s =
                ([.submitted call.id w.pending.request (w.terms L call)],
                  ⟨call, .ended (.error (.answer (writeProblem e)))⟩, s) := by
              simp only [Deciding.run, Deciding.write, hchain, hsubmit, hsmart, if_true, Deciding.fail]
            simp only [hsmart, if_true]
            exact .after hrun rfl rfl (alone_failed (n + 5) (writeProblem e))
          · have hrun : Deciding.run machine ⟨call, .writing w⟩ s =
                ([.submitted call.id w.pending.request (w.terms L call)],
                  ⟨call, .sending w none [.chainGrant]⟩, s) := by
              simp only [Deciding.run, Deciding.write, hchain, hsubmit, hsmart, Deciding.goTo]
              rfl
            simp only [hsmart]
            exact .after hrun rfl rfl (alone_sending (n + 1) w none [.chainGrant] hlost)

theorem alone_wrapping (n : Nat) (a : Allowing) (ownerSig : Option Bytes) (hlost : call.lost = false) :
    Answers call s
      (match envelopeFor L a.entry a.pending.request machine.keys ((a.terms L call).structHash L)
          call.env.seed call.env.offer call.fs with
        | .error e => ⟨.error e, s.ledger, []⟩
        | .ok envelope => match writeGrant call.env (a.terms L call) s.ledger with
          | (.error e, l) => ⟨.error e, l, []⟩
          | (.ok (tx, stillPending), l) => sendGrant L a.pending a.entry call.decision
              (a.terms L call) ownerSig envelope tx stillPending call.confirmation call.env l)
      (Deciding.alone machine (n + 7) ⟨call, .wrapping a ownerSig⟩ s) := by
  cases henvelope : envelopeFor L a.entry a.pending.request machine.keys
      ((a.terms L call).structHash L) call.env.seed call.env.offer call.fs with
  | error e =>
      have hrun : Deciding.run machine ⟨call, .wrapping a ownerSig⟩ s =
          ([], ⟨call, .ended (.error (.answer e))⟩, s) := by
        simp only [Deciding.run, Deciding.wrap, henvelope, Deciding.fail]
      exact .after hrun rfl rfl (alone_failed (n + 6) e)
  | ok envelope =>
      have hrun : Deciding.run machine ⟨call, .wrapping a ownerSig⟩ s =
          ([], ⟨call, .writing ⟨a, ownerSig, envelope⟩⟩, s) := by
        simp only [Deciding.run, Deciding.wrap, henvelope, Deciding.goTo]
      exact .after hrun rfl rfl (alone_writing n ⟨a, ownerSig, envelope⟩ hlost)

theorem alone_signing (n : Nat) (a : Allowing) (hlost : call.lost = false) :
    Answers call s (allow L a.pending a.entry call.decision machine.keys machine.deployment call.env
        call.fs a.nonce s.ledger)
      (Deciding.alone machine (n + 8) ⟨call, .signing a⟩ s) := by
  unfold allow
  by_cases hsmart : call.env.smart = true
  · have hrun : Deciding.run machine ⟨call, .signing a⟩ s = ([], ⟨call, .wrapping a none⟩, s) := by
      simp only [Deciding.run, Deciding.sign, hsmart, if_true, Deciding.goTo]
    simp only [hsmart, if_true]
    exact .after hrun rfl rfl (alone_wrapping n a none hlost)
  · simp only [hsmart]
    cases hsign : call.env.sign ((a.terms L call).digest L machine.deployment.chainId
        machine.deployment.policy) call.confirmation with
    | error e =>
        have hrun : Deciding.run machine ⟨call, .signing a⟩ s =
            ([], ⟨call, .ended (.error (.answer (signingProblem e)))⟩, s) := by
          simp only [Deciding.run, Deciding.sign, hsmart, hsign, Deciding.fail]
          rfl
        have hfailed : call.env.sign ((termsFor L a.pending.request a.entry call.decision.permission
            a.nonce call.env.now).digest L machine.deployment.chainId machine.deployment.policy)
            (call.env.policy.required call.decision.permission call.env.deviceSetting call.env.recent
              call.env.now) = .error e := hsign
        simp only [hfailed]
        exact .after hrun rfl rfl (alone_failed (n + 7) (signingProblem e))
    | ok sig =>
        have hrun : Deciding.run machine ⟨call, .signing a⟩ s =
            ([.signed call.id a.pending.request (a.terms L call)], ⟨call, .wrapping a (some sig)⟩, s) := by
          simp only [Deciding.run, Deciding.sign, hsmart, hsign, Deciding.goTo]
          rfl
        have hsigned : call.env.sign ((termsFor L a.pending.request a.entry call.decision.permission
            a.nonce call.env.now).digest L machine.deployment.chainId machine.deployment.policy)
            (call.env.policy.required call.decision.permission call.env.deviceSetting call.env.recent
              call.env.now) = .ok sig := hsign
        simp only [hsigned]
        exact .after hrun rfl rfl (alone_wrapping n a (some sig) hlost)

-- A call that is not interrupted, and whose message is not lost, is an `answer`.
theorem alone_answering (pending : PendingRequest) (hlost : call.lost = false) :
    Answers call s (answer L pending call.decision machine.keys machine.deployment call.env call.fs
        s.ledger) (Deciding.alone machine 9 ⟨call, .answering pending⟩ s) := by
  unfold answer
  by_cases hdeny : call.decision = .deny
  · rw [if_pos hdeny, refuse]
    cases hrelay : call.env.relay with
    | error e =>
        have hrun : Deciding.run machine ⟨call, .answering pending⟩ s =
            ([], ⟨call, .ended (.error (.answer .relayUnreachable))⟩, s) := by
          simp [Deciding.run, Deciding.begin, hdeny, Deciding.deliver, hrelay, hlost, Deciding.fail]
        exact .after hrun rfl rfl (alone_failed 8 .relayUnreachable)
    | ok =>
        have hrest := @alone_removing L machine call s 6 (refused pending)
        have hrun : Deciding.run machine ⟨call, .answering pending⟩ s =
            ([.sent call.id (refusal call pending)], ⟨call, .removing (refused pending)⟩, s) := by
          simp [Deciding.run, Deciding.begin, hdeny, Deciding.deliver, hrelay, Deciding.goTo]
        rw [Deciding.alone]
        simp only [hrun]
        refine ⟨?_, hrest.result, hrest.ledger, hrest.pending⟩
        rw [List.filterMap_append, hrest.sent]
        rfl
  · rw [if_neg hdeny]
    obtain ⟨request, entry, hfid⟩ := pending
    cases entry with
    | none =>
        have hrun : Deciding.run machine ⟨call, .answering ⟨request, none, hfid⟩⟩ s =
            ([], ⟨call, .ended (.error (.answer .unknownFile))⟩, s) := by
          simp [Deciding.run, Deciding.begin, hdeny, PendingRequest.current, Deciding.fail]
        exact .after hrun rfl rfl (alone_failed 8 .unknownFile)
    | some entry =>
        by_cases hversion : entry.headerHash = hexEncode request.headerHash.bytes
        · rcases hnonce : takeNonce call.env s.ledger with ⟨problem | nonce, l⟩
          · have hrun : Deciding.run machine ⟨call, .answering ⟨request, some entry, hfid⟩⟩ s =
                ([], ⟨call, .ended (.error (.answer .failed))⟩, { s with ledger := l }) := by
              simp [Deciding.run, Deciding.begin, hdeny, PendingRequest.current, hversion, hnonce,
                Deciding.fail]
            simp only [hversion, ne_eq, not_true_eq_false, if_false]
            exact .after hrun rfl rfl (alone_failed 8 .failed)
          · have hrun : Deciding.run machine ⟨call, .answering ⟨request, some entry, hfid⟩⟩ s =
                ([], ⟨call, .signing ⟨⟨request, some entry, hfid⟩, entry, nonce, rfl, hversion⟩⟩,
                  { s with ledger := l }) := by
              simp [Deciding.run, Deciding.begin, hdeny, PendingRequest.current, hversion, hnonce,
                Deciding.goTo]
            simp only [hversion, ne_eq, not_true_eq_false, if_false]
            have hrest := @alone_signing L machine call { s with ledger := l } 0
              ⟨⟨request, some entry, hfid⟩, entry, nonce, rfl, hversion⟩ hlost
            rw [Nat.zero_add] at hrest
            exact .after hrun rfl rfl hrest
        · have hrun : Deciding.run machine ⟨call, .answering ⟨request, some entry, hfid⟩⟩ s =
              ([], ⟨call, .ended (.error (.answer .version))⟩, s) := by
            simp [Deciding.run, Deciding.begin, hdeny, PendingRequest.current, hversion, Deciding.fail]
          simp only [hversion, ne_eq, not_false_eq_true, if_true]
          exact .after hrun rfl rfl (alone_failed 8 .version)

end Alone

section Filing

variable {a : Approvals} {id : String} {p : PendingRequest}

theorem fileAll_cons (rest : List PendingRequest) :
    (a.fileAll (p :: rest)).2 = ((a.insert p).fileAll rest).2 := by
  simp only [Approvals.fileAll]
  cases a.pending.lookup p.id <;> rfl

-- What is held after a batch came with it or was held before.
theorem mem_of_fileAll {fresh : List PendingRequest}
    (h : (a.fileAll fresh).2.pending.lookup id = some p) :
    p ∈ fresh ∨ a.pending.lookup id = some p := by
  induction fresh generalizing a with
  | nil => exact .inr h
  | cons q rest ih =>
      rw [fileAll_cons] at h
      rcases ih h with hmem | hlookup
      · exact .inl (List.mem_cons_of_mem _ hmem)
      · by_cases hid : id = q.id
        · subst hid
          rw [Approvals.insert, AList.lookup_insert] at hlookup
          cases hlookup
          exact .inl List.mem_cons_self
        · rw [Approvals.insert, AList.lookup_insert_ne hid] at hlookup
          exact .inr hlookup

theorem lookup_remove {key : String} :
    (a.remove key).pending.lookup id = some p → a.pending.lookup id = some p := by
  intro h
  by_cases hid : id = key
  · subst hid
    rw [Approvals.remove, AList.lookup_erase] at h
    cases h
  · rwa [Approvals.remove, AList.lookup_erase_ne hid] at h

end Filing

section Watches

-- The requests of this read that are not filed yet, and the cards that are not shown yet.
def Watching.fresh : Watching → List PendingRequest
  | .finding _ fresh | .filing fresh => fresh
  | _ => []

def Watching.cards : Watching → List Arrived
  | .showing arrived => arrived
  | _ => []

-- All that one step of the watcher can do.
inductive WatcherMoved (s : AppState) (input : WatchInput) (w : Watching) :
    List DeskEvent → Watching → AppState → Prop where
  | quiet {w' : Watching} {l : Ledger} (hfresh : w'.fresh = w.fresh) (hcards : w'.cards = w.cards)
      (hfiles : l.files = s.ledger.files) : WatcherMoved s input w [] w' { s with ledger := l }
  | advanced {w' : Watching} {l : Ledger} {notice : VersionMsg} {notices : List VersionMsg}
      {requests : List AccessRequest} {entry : Entry} (hw : w = .noticing (notice :: notices) requests)
      (happly : applyVersion input.notice notice s.ledger = (.ok entry, l))
      (hfresh : w'.fresh = []) (hcards : w'.cards = []) :
      WatcherMoved s input w [] w' { s with ledger := l }
  | found {w' : Watching} {request : AccessRequest}
      (hfresh : w'.fresh = w.fresh ++ [fileRequest input.io request s.ledger])
      (hcards : w.cards = []) (hcards' : w'.cards = []) : WatcherMoved s input w [] w' s
  | filed {w' : Watching} {fresh : List PendingRequest} (hw : w = .filing fresh)
      (hfresh : w'.fresh = []) (hcards : w'.cards = (s.approvals.fileAll fresh).1) :
      WatcherMoved s input w [] w' { s with approvals := (s.approvals.fileAll fresh).2 }
  | showed {w' : Watching} {arrived : Arrived} (hfresh : w.fresh = []) (hfresh' : w'.fresh = [])
      (hcards : w.cards = arrived :: w'.cards) : WatcherMoved s input w [.shown arrived] w' s

variable {L : Libraries}

theorem applyVersion_refused {env : NoticeEnv} {notice : VersionMsg} {l l' : Ledger}
    {problem : NoticeProblem} (h : applyVersion env notice l = (.error problem, l')) : l' = l := by
  unfold applyVersion at h
  split at h
  · cases h
    rfl
  · split at h
    · cases h
      rfl
    · split at h
      · rename_i hadvance
        cases h
        exact Ledger.update_keeps hadvance
      · cases h

theorem Watching.run_moved (machine : OwnerMachine L) (input : WatchInput) (w : Watching)
    (s : AppState) : WatcherMoved s input w (w.run machine input s).1 (w.run machine input s).2.1
      (w.run machine input s).2.2 := by
  cases w with
  | sleeping =>
      simp only [Watching.run]
      cases input.inbox <;> exact .quiet rfl rfl rfl
  | noticing notices requests =>
      cases notices with
      | nil => exact .quiet rfl rfl rfl
      | cons notice notices =>
          simp only [Watching.run]
          rcases happly : applyVersion input.notice notice s.ledger with ⟨problem | entry, l⟩
          · rw [applyVersion_refused happly]
            exact .quiet rfl rfl rfl
          · dsimp only
            cases input.notice.link.filter (·.writes) <;> exact .advanced rfl happly rfl rfl
  | anchoring link notice notices requests => exact .quiet rfl rfl (bumpVersion_files _ _ _ _)
  | finding requests fresh =>
      cases requests with
      | nil => exact .quiet rfl rfl rfl
      | cons request requests => exact .found rfl rfl rfl
  | filing fresh => exact .filed rfl rfl rfl
  | showing arrived =>
      cases arrived with
      | nil => exact .quiet rfl rfl rfl
      | cons arrived rest => exact .showed rfl rfl rfl

-- The watcher answers nobody.
theorem WatcherMoved.silent {s s' : AppState} {input : WatchInput} {w w' : Watching}
    {out : List DeskEvent} (h : WatcherMoved s input w out w' s') :
    out.filterMap DeskEvent.sentOut = [] := by
  cases h <;> rfl

end Watches

section Turns

-- All that one turn can do.
inductive Turned (s : Desk) : DeskTurn → List DeskEvent → Desk → Prop where
  | watched {input : WatchInput} {out : List DeskEvent} {w : Watching} {s' : AppState}
      (h : WatcherMoved s.state input s.watcher out w s') :
      Turned s (.watch input) out ⟨w, ⟨s', s.calls.threads⟩⟩
  | called (call : DecideCall) :
      Turned s (.call (.start call)) [] ⟨s.watcher, ⟨s.state, s.calls.threads ++ [.called call]⟩⟩
  | moved {index : Nat} {d d' : Deciding} {out : List DeskEvent} {s' : AppState}
      (hd : s.calls.threads[index]? = some d) (h : Moved d s.state out d' s') :
      Turned s (.call (.resume index ())) out ⟨s.watcher, ⟨s', s.calls.threads.set index d'⟩⟩
  | idle (index : Nat) : Turned s (.call (.resume index ())) [] s

variable {L : Libraries}

theorem Desk.turn_turned (machine : OwnerMachine L) (s : Desk) (a : DeskTurn) :
    Turned s a (s.turn machine a).1 (s.turn machine a).2 := by
  cases a with
  | watch input => exact .watched (s.watcher.run_moved machine input s.state)
  | call t =>
      cases t with
      | start call => exact .called call
      | resume index =>
          cases hd : s.calls.threads[index]? with
          | none =>
              simp only [Desk.turn, Threads.turn, hd]
              exact .idle index
          | some d =>
              simp only [Desk.turn, Threads.turn, hd]
              exact .moved hd (d.run_moved machine s.state)

end Turns

section Arrivals

variable {L : Libraries} {machine : OwnerMachine L} {s : Desk} {input : WatchInput}
  {envelope : Proto.Envelope} {request : AccessRequest}

abbrev DeskStep := Taken Desk DeskTurn (List DeskEvent)

def events (log : List DeskStep) : List DeskEvent := log.flatMap Taken.output

theorem events_append (log log' : List DeskStep) : events (log ++ log') = events log ++ events log' :=
  List.flatMap_append

def messages (log : List DeskStep) : List Sent := (events log).filterMap DeskEvent.sentOut

theorem messages_append (log log' : List DeskStep) :
    messages (log ++ log') = messages log ++ messages log' := by
  rw [messages, events_append, List.filterMap_append]
  rfl

theorem acceptVersion_of_request {account : Bytes} {now : UInt64}
    (h : acceptRequest L envelope account now = some request) :
    acceptVersion L envelope account now = none := by
  obtain ⟨hreq, -⟩ := acceptRequest_eq_some.mp h
  cases hversion : acceptVersion L envelope account now with
  | none => rfl
  | some notice =>
      obtain ⟨hkind, -⟩ := acceptVersion_eq_some.mp hversion
      rw [hreq] at hkind
      cases hkind

-- One read of the inbox with a request in it that is new.
theorem arrives_new (hsleep : s.watcher = .sleeping) (hinbox : input.inbox = some [envelope])
    (haccept : acceptRequest L envelope machine.account input.now = some request)
    (hnew : s.state.approvals.pending.lookup (hexEncode request.nonce.bytes) = none) :
    let p := fileRequest input.io request s.state.ledger
    events (trace (Desk.turn machine) (List.replicate 7 (.watch input)) s) =
        [.shown ⟨p, p.incomingOn s.state.approvals.editSupported⟩] ∧
      final (Desk.turn machine) (List.replicate 7 (.watch input)) s =
        ⟨.sleeping, ⟨{ s.state with approvals := s.state.approvals.insert p }, s.calls.threads⟩⟩ := by
  have hversion := acceptVersion_of_request haccept
  obtain ⟨watcher, ⟨st, threads⟩⟩ := s
  obtain rfl : watcher = .sleeping := hsleep
  have hlookup : st.approvals.pending.lookup (fileRequest input.io request st.ledger).id = none := hnew
  simp only [List.replicate, events, trace, taken, final, Desk.turn, Watching.run, Desk.state, hinbox,
    haccept, hversion, List.filterMap_cons, List.filterMap_nil, List.nil_append, Approvals.fileAll,
    hlookup, List.flatMap_cons, List.flatMap_nil, List.append_nil, and_self]

-- One read of the inbox with a request in it whose nonce is held already: no card.
theorem arrives_held (hsleep : s.watcher = .sleeping) (hinbox : input.inbox = some [envelope])
    (haccept : acceptRequest L envelope machine.account input.now = some request)
    {held : PendingRequest}
    (hheld : s.state.approvals.pending.lookup (hexEncode request.nonce.bytes) = some held) :
    let p := fileRequest input.io request s.state.ledger
    events (trace (Desk.turn machine) (List.replicate 6 (.watch input)) s) = [] ∧
      final (Desk.turn machine) (List.replicate 6 (.watch input)) s =
        ⟨.sleeping, ⟨{ s.state with approvals := s.state.approvals.insert p }, s.calls.threads⟩⟩ := by
  have hversion := acceptVersion_of_request haccept
  obtain ⟨watcher, ⟨st, threads⟩⟩ := s
  obtain rfl : watcher = .sleeping := hsleep
  have hlookup : st.approvals.pending.lookup (fileRequest input.io request st.ledger).id = some held :=
    hheld
  simp only [List.replicate, events, trace, taken, final, Desk.turn, Watching.run, Desk.state, hinbox,
    haccept, hversion, List.filterMap_cons, List.filterMap_nil, List.nil_append, Approvals.fileAll,
    hlookup, List.flatMap_cons, List.flatMap_nil, and_self]

end Arrivals

section Taps

variable {L : Libraries} {machine : OwnerMachine L} {w : Watching} {st : AppState}

-- The only call, for some steps.
theorem events_alone (n : Nat) (d : Deciding) :
    events (trace (Desk.turn machine) (List.replicate n (.call (.resume 0 ()))) ⟨w, ⟨st, [d]⟩⟩) =
      (d.alone machine n st).1 := by
  induction n generalizing d st with
  | zero => rfl
  | succ n ih =>
      have hturn : Desk.turn machine ⟨w, ⟨st, [d]⟩⟩ (.call (.resume 0 ())) =
          ((d.run machine st).1, ⟨w, ⟨(d.run machine st).2.2, [(d.run machine st).2.1]⟩⟩) := rfl
      rw [List.replicate_succ, trace, taken, hturn, events, List.flatMap_cons, ← events, ih]
      rfl

-- A tap that nothing interrupts sends what an answer in one piece sends.
theorem messages_tap {call : DecideCall} {p : PendingRequest}
    (hp : st.approvals.pending.lookup call.id = some p) (hready : call.ready = .ok ())
    (hlost : call.lost = false) :
    messages (trace (Desk.turn machine) (.call (.start call) :: List.replicate 11 (.call (.resume 0 ())))
        ⟨w, ⟨st, []⟩⟩) =
      (answer L p call.decision machine.keys machine.deployment
        { call.env with recent := st.approvals.recent } call.fs st.ledger).sent := by
  let call' : DecideCall := { call with env := { call.env with recent := st.approvals.recent } }
  have hrun₁ : Deciding.run machine (.called call) st = ([], ⟨call, .preparing p⟩, st) := by
    simp only [Deciding.run, Deciding.called, hp, Deciding.goTo]
  have hrun₂ : Deciding.run machine ⟨call, .preparing p⟩ st = ([], ⟨call', .answering p⟩, st) := by
    simp only [Deciding.run, hready, call']
  have halone : (Deciding.alone machine 11 (.called call) st).1 =
      (Deciding.alone machine 9 ⟨call', .answering p⟩ st).1 := by
    rw [alone_quiet hrun₁, alone_quiet hrun₂]
  have hstart : Desk.turn machine ⟨w, ⟨st, []⟩⟩ (.call (.start call)) =
      ([], ⟨w, ⟨st, [.called call]⟩⟩) := rfl
  rw [messages, trace, taken, hstart, events, List.flatMap_cons, List.nil_append, ← events, events_alone,
    halone]
  exact (@alone_answering L machine call' st p hlost).sent

end Taps

namespace Reference

-- A read of the inbox with one message in it.
def watching (now : UInt64) (envelope : Proto.Envelope) : WatchInput :=
  ⟨some [envelope], now, noticing, .sound⟩

-- The owner taps on the card of the reference request.
def tap (decision : DecisionArg) : DecideCall :=
  ⟨hexEncode nonce.bytes, decision, .ok (), approving, .empty, false, 130⟩

end Reference

end Zbacs.Agent
