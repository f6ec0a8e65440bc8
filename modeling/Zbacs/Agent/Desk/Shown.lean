import Zbacs.Agent.Desk.Theorems

namespace Zbacs.Agent

open Zbacs.Lib Zbacs.Core Zbacs.Proto

-- What is asked of the person: which file, which version, what for, and for whose device.
structure Demand where
  fid : FixedBytes 32
  headerHash : FixedBytes 32
  requested : UInt8
  deviceKid : FixedBytes 16
  x25519Pub : FixedBytes 32
  ed25519Pub : FixedBytes 32
deriving DecidableEq

def demand (r : AccessRequest) : Demand :=
  ⟨r.fid, r.headerHash, r.requested, r.deviceKid, r.x25519Pub, r.ed25519Pub⟩

def shownCards (log : List DeskStep) : List Arrived := (events log).filterMap DeskEvent.card

-- The request of the last card for an id.
def lastFor (id : String) (cards : List Arrived) : Option PendingRequest :=
  ((cards.filter fun a => a.card.id = id).getLast?).map Arrived.pending

-- The tap that this call began with was made when the last card shown for the id was of this
-- request.
def Tapped (log : List DeskStep) (index : Nat) (id : String) (request : AccessRequest) : Prop :=
  ∃ pre y post d q, log = pre ++ y :: post ∧ y.input = .call (.resume index ()) ∧
    y.before.calls.threads[index]? = some d ∧ d.stage.progress = .waiting ∧ d.call.id = id ∧
    lastFor id (shownCards pre) = some q ∧ demand q.request = demand request

-- A request is filed over one that asks for something else.
def Replaces (x : DeskStep) : Prop :=
  ∃ input pre p post q, x.input = .watch input ∧ x.before.watcher = .filing (pre ++ p :: post) ∧
    (x.before.state.approvals.fileAll pre).2.pending.lookup p.id = some q ∧
    demand q.request ≠ demand p.request

-- A tap looks its request up while a card for the id has yet to be shown.
def Hurries (x : DeskStep) : Prop :=
  ∃ index d a, x.input = .call (.resume index ()) ∧ x.before.calls.threads[index]? = some d ∧
    d.stage.progress = .waiting ∧ a ∈ x.before.watcher.cards ∧ a.card.id = d.call.id

structure Orderly (x : DeskStep) : Prop where
  kept : ¬Replaces x
  seen : ¬Hurries x

-- Every request that waits is what its last card says, shown or about to be.
def Carded (cards : List Arrived) (a : Approvals) : Prop :=
  ∀ id p, a.pending.lookup id = some p →
    ∃ q, lastFor id cards = some q ∧ demand q.request = demand p.request

structure Shown (log : List DeskStep) (s : Desk) : Prop where
  pending : Carded (shownCards log ++ s.watcher.cards) s.state.approvals
  calls : ∀ index d p, s.calls.threads[index]? = some d → d.stage.progress = .holding p →
    Tapped log index d.call.id p.request

section

variable {L : Libraries} {machine : OwnerMachine L} {log log' : List DeskStep} {s s' : Desk}
  {x : DeskStep} {id : String} {index : Nat} {d d' : Deciding} {p : PendingRequest} {st : AppState}
  {a a' : Approvals} {cards : List Arrived} {request : AccessRequest}

theorem shownCards_concat : shownCards (log ++ [x]) = shownCards log ++ x.output.filterMap DeskEvent.card := by
  simp [shownCards, events]

theorem lastFor_concat (c : Arrived) : lastFor id (cards ++ [c]) =
    if c.card.id = id then some c.pending else lastFor id cards := by
  unfold lastFor
  rw [List.filter_append]
  by_cases hid : c.card.id = id <;> simp [hid]

theorem lastFor_append {rest : List Arrived} (h : ∀ c ∈ rest, c.card.id ≠ id) :
    lastFor id (cards ++ rest) = lastFor id cards := by
  have hnone : rest.filter (fun c => c.card.id = id) = [] :=
    List.filter_eq_nil_iff.mpr fun c hc => by simpa using h c hc
  rw [lastFor, lastFor, List.filter_append, hnone, List.append_nil]

theorem Tapped.mono (h : Tapped log index id request) : Tapped (log ++ log') index id request := by
  obtain ⟨pre, y, post, d, q, rfl, hrest⟩ := h
  exact ⟨pre, y, post ++ log', d, q, by rw [List.append_assoc, List.cons_append], hrest⟩

theorem Carded.mono (h : Carded cards a)
    (hpending : ∀ id p, a'.pending.lookup id = some p → a.pending.lookup id = some p) :
    Carded cards a' := fun id p hp => h id p (hpending id p hp)

-- Filing one request: a new one comes with a card, and one that is there asks for the same.
theorem Carded.insert_new (h : Carded cards a) (b : Bool) :
    Carded (cards ++ [⟨p, p.incomingOn b⟩]) (a.insert p) := by
  intro id q hq
  rw [lastFor_concat]
  by_cases hid : id = p.id
  · subst hid
    rw [Approvals.insert, AList.lookup_insert] at hq
    obtain rfl := Option.some.inj hq
    exact ⟨p, if_pos rfl, rfl⟩
  · rw [Approvals.insert, AList.lookup_insert_ne hid] at hq
    obtain ⟨r, hr, hasked⟩ := h id q hq
    refine ⟨r, ?_, hasked⟩
    rw [if_neg (show ¬(p.incomingOn b).id = id from Ne.symm hid)]
    exact hr

theorem Carded.insert_same (h : Carded cards a) {old : PendingRequest}
    (hold : a.pending.lookup p.id = some old) (hsame : demand old.request = demand p.request) :
    Carded cards (a.insert p) := by
  intro id q hq
  by_cases hid : id = p.id
  · subst hid
    rw [Approvals.insert, AList.lookup_insert] at hq
    obtain rfl := Option.some.inj hq
    obtain ⟨r, hr, hasked⟩ := h _ old hold
    exact ⟨r, hr, hasked.trans hsame⟩
  · rw [Approvals.insert, AList.lookup_insert_ne hid] at hq
    exact h id q hq

theorem Carded.fileAll {fresh : List PendingRequest} (h : Carded cards a)
    (hkept : ∀ pre p post q, fresh = pre ++ p :: post →
      (a.fileAll pre).2.pending.lookup p.id = some q → demand q.request = demand p.request) :
    Carded (cards ++ (a.fileAll fresh).1) (a.fileAll fresh).2 := by
  induction fresh generalizing a cards with
  | nil =>
      rw [Approvals.fileAll, List.append_nil]
      exact h
  | cons p rest ih =>
      have hrest : ∀ pre q post r, rest = pre ++ q :: post →
          ((a.insert p).fileAll pre).2.pending.lookup q.id = some r → demand r.request = demand q.request := by
        intro pre q post r hsplit hr
        refine hkept (p :: pre) q post r (by rw [hsplit, List.cons_append]) ?_
        rw [fileAll_cons]
        exact hr
      rw [fileAll_cons]
      cases hold : a.pending.lookup p.id with
      | none =>
          have hnext := ih (h.insert_new a.editSupported) hrest
          rw [List.append_assoc, List.singleton_append] at hnext
          simp only [Approvals.fileAll, hold]
          exact hnext
      | some old =>
          have hnext := ih (h.insert_same hold (hkept [] p rest old rfl hold)) hrest
          simp only [Approvals.fileAll, hold]
          exact hnext

theorem Shown.watched {input : WatchInput} {out : List DeskEvent} {w : Watching}
    (h : Shown log s) (hw : WatcherMoved s.state input s.watcher out w st) {after : Desk}
    (hkept : ¬Replaces ⟨s, .watch input, out, after⟩) :
    Shown (log ++ [⟨s, .watch input, out, after⟩]) ⟨w, ⟨st, s.calls.threads⟩⟩ := by
  refine ⟨?_, fun index d p hd hp => (h.calls index d p hd hp).mono⟩
  have hpending := h.pending
  rw [shownCards_concat]
  cases hw with
  | quiet _ hcards _ =>
      rw [← hcards] at hpending
      rw [List.filterMap_nil, List.append_nil]
      exact hpending
  | advanced hw _ _ hcards =>
      rw [hw] at hpending
      rw [List.filterMap_nil, List.append_nil, show Watching.cards w = [] from hcards]
      exact hpending
  | found _ hcards hcards' =>
      rw [hcards] at hpending
      rw [List.filterMap_nil, List.append_nil, show Watching.cards w = [] from hcards']
      exact hpending
  | @filed _ fresh hw _ hcards =>
      rw [hw, show (Watching.filing fresh).cards = [] from rfl, List.append_nil] at hpending
      rw [List.filterMap_nil, List.append_nil, show Watching.cards w = _ from hcards]
      refine hpending.fileAll fun pre p post q hsplit hq => ?_
      by_contra hne
      exact hkept ⟨input, pre, p, post, q, rfl, by rw [hw, hsplit], hq, hne⟩
  | showed _ _ hcards =>
      rw [hcards] at hpending
      rw [List.append_assoc]
      exact hpending

-- The events of a call are no cards.
theorem moved_no_card {out : List DeskEvent} {s s' : AppState} (h : Moved d s out d' s') :
    out.filterMap DeskEvent.card = [] := by
  refine List.filterMap_eq_nil_iff.mpr fun e he => ?_
  obtain ⟨p, -, habout⟩ := moved_about h he
  have hanswers := habout.answers
  cases e with
  | shown arrived => cases hanswers
  | signed | submitted | sent => rfl

theorem Shown.moved (h : Shown log s) (hd : s.calls.threads[index]? = some d) {out : List DeskEvent}
    (hmove : Moved d s.state out d' st) {after : Desk}
    (hseen : ¬Hurries ⟨s, .call (.resume index ()), out, after⟩) :
    Shown (log ++ [⟨s, .call (.resume index ()), out, after⟩])
      ⟨s.watcher, ⟨st, s.calls.threads.set index d'⟩⟩ := by
  have hkeep : (∀ id p, st.approvals.pending.lookup id = some p →
        s.state.approvals.pending.lookup id = some p) →
      (∀ p, d'.stage.progress = .holding p → Tapped (log ++ [⟨s, .call (.resume index ()), out, after⟩])
        index d'.call.id p.request) →
      Shown (log ++ [⟨s, .call (.resume index ()), out, after⟩])
        ⟨s.watcher, ⟨st, s.calls.threads.set index d'⟩⟩ := by
    intro hpending htapped
    refine ⟨?_, fun j c p hc hp => ?_⟩
    · rw [shownCards_concat, moved_no_card hmove, List.append_nil]
      exact h.pending.mono hpending
    · by_cases hj : index = j
      · subst hj
        rw [List.getElem?_set_self (List.getElem?_eq_some_iff.mp hd).1] at hc
        obtain rfl := Option.some.inj hc
        exact htapped p hp
      · rw [List.getElem?_set_ne hj] at hc
        exact (h.calls j c p hc hp).mono
  have hold : ∀ p, d.stage.progress = .holding p →
      Tapped (log ++ [⟨s, .call (.resume index ()), out, after⟩]) index d.call.id p.request :=
    fun p hp => (h.calls index d p hd hp).mono
  cases hmove with
  | took hwaiting hp hholding hcall =>
      refine hkeep (fun _ _ h => h) fun q hq => ?_
      obtain rfl := Progress.holding.inj (hholding.symm.trans hq)
      obtain ⟨r, hr, hsame⟩ := h.pending _ _ hp
      -- no card for the id is still to be shown
      rw [lastFor_append fun c hc hid => hseen ⟨index, d, c, rfl, hd, hwaiting, hc, hid⟩] at hr
      rw [hcall]
      exact ⟨log, _, [], d, r, rfl, rfl, hd, hwaiting, rfl, hr, hsame⟩
  | worked hholding hnext hcall _ _ =>
      refine hkeep (fun _ _ h => h) fun q hq => ?_
      rcases hnext with hsame | hclosed
      · obtain rfl := Progress.holding.inj (hsame.symm.trans hq)
        rw [hcall]
        exact hold _ hholding
      · rw [hclosed] at hq
        cases hq
  | recorded _ hdelivered _ _ =>
      exact hkeep (fun _ _ h => h) (by simp [hdelivered])
  | removed _ hclosed _ => exact hkeep (fun _ _ h => lookup_remove h) (by simp [hclosed])
  | settled _ hclosed _ hpending => exact hkeep (fun _ _ h => hpending ▸ h) (by simp [hclosed])
  | missed _ hnext _ | delivered _ hnext _ _ | lost _ hnext _ _ _ _ =>
      exact hkeep (fun _ _ h => h) (by simp [hnext])

theorem Shown.turned {a : DeskTurn} {out : List DeskEvent} (h : Shown log s) (ht : Turned s a out s')
    (hcalm : Orderly ⟨s, a, out, s'⟩) : Shown (log ++ [⟨s, a, out, s'⟩]) s' := by
  cases ht with
  | watched hw => exact h.watched hw hcalm.kept
  | called call =>
      refine ⟨?_, fun index d p hd hp => ?_⟩
      · rw [shownCards_concat, List.filterMap_nil, List.append_nil]
        exact h.pending
      · rw [List.getElem?_append] at hd
        split at hd
        · exact (h.calls index d p hd hp).mono
        · rw [List.mem_singleton.mp (List.mem_of_getElem? hd)] at hp
          cases hp
  | moved hd hmove => exact h.moved hd hmove hcalm.seen
  | idle index =>
      refine ⟨?_, fun j d p hd hp => (h.calls j d p hd hp).mono⟩
      rw [shownCards_concat, List.filterMap_nil, List.append_nil]
      exact h.pending

-- What is put out in a turn answers what was on the last card when the call began.
theorem Shown.answers {a : DeskTurn} {out : List DeskEvent} (h : Shown log s) (ht : Turned s a out s')
    {e : DeskEvent} (he : e ∈ out) (hanswers : e.answers = some (id, request)) :
    ∃ index, a = .call (.resume index ()) ∧ Tapped log index id request := by
  cases ht with
  | watched hw =>
      cases hw with
      | showed =>
          obtain rfl := List.mem_singleton.mp he
          cases hanswers
      | quiet | advanced | found | filed => cases he
  | @moved index d _ _ _ hd hmove =>
      obtain ⟨p, hp, habout⟩ := moved_about hmove he
      obtain ⟨rfl, rfl⟩ := Prod.mk.inj (Option.some.inj (habout.answers.symm.trans hanswers))
      exact ⟨index, rfl, h.calls index d p hd hp⟩
  | called | idle => cases he

end

-- In every run in which no request is filed over one that asks for something else, and no tap comes
-- before the card it is meant for, whatever a call signs, submits or sends is for what the last
-- card said when the call began.
theorem answers_what_was_shown {L : Libraries} (machine : OwnerMachine L) (l : Ledger)
    (editSupported : Bool) (turns : List DeskTurn)
    (hcalm : ∀ x ∈ trace (Desk.turn machine) turns (.start l editSupported), Orderly x) :
    Along (fun pre x => ∀ e ∈ x.output, ∀ id request, e.answers = some (id, request) →
        ∃ index, x.input = .call (.resume index ()) ∧ Tapped pre index id request)
      (trace (Desk.turn machine) turns (.start l editSupported)) := by
  refine @trace_along _ _ _ (Desk.turn machine) (fun _ => Orderly) _ Shown _ ?_ ?_ turns ?_
  · refine ⟨fun id p hp => ?_, fun index d p hd => ?_⟩
    · simp [Desk.state, Desk.start, Approvals.start] at hp
    · simp [Desk.start] at hd
  · intro log s a h hok
    exact ⟨h.turned (s.turn_turned machine a) hok,
      fun e he id request hanswers => h.answers (s.turn_turned machine a) he hanswers⟩
  · intro pre x post hsplit
    exact hcalm x (by rw [hsplit]; simp)

section Orderly

variable {L : Libraries} {machine : OwnerMachine L} {s after : Desk} {out : List DeskEvent}

theorem orderly_watch {input : WatchInput}
    (h : ∀ fresh, s.watcher = .filing fresh →
      ∃ p, fresh = [p] ∧ s.state.approvals.pending.lookup p.id = none) :
    Orderly ⟨s, .watch input, out, after⟩ := by
  refine ⟨?_, ?_⟩
  · rintro ⟨_, pre, p, post, q, -, hw, hq, -⟩
    obtain ⟨r, hsplit, hnone⟩ := h _ hw
    cases pre with
    | nil =>
        obtain rfl := (List.cons.inj hsplit).1
        rw [show (Approvals.fileAll [] s.state.approvals).2.pending.lookup p.id = none from hnone] at hq
        cases hq
    | cons _ pre => simp at hsplit
  · rintro ⟨_, _, _, hinput, -⟩
    cases hinput

-- As long as no card is to be shown, a tap is in time.
theorem orderly_calls {turns : List (Turn DecideCall Unit)} (h : s.watcher.cards = []) :
    ∀ x ∈ trace (Desk.turn machine) (turns.map .call) s, Orderly x := by
  induction turns generalizing s with
  | nil => simp [trace]
  | cons t turns ih =>
      intro x hx
      rcases List.mem_cons.mp hx with rfl | hrest
      · refine ⟨?_, ?_⟩
        · rintro ⟨_, _, _, _, _, hinput, -⟩
          cases hinput
        · rintro ⟨_, _, c, -, -, -, hc, -⟩
          have hnone : c ∈ s.watcher.cards := hc
          rw [h] at hnone
          cases hnone
      · exact @ih (s.turn machine (.call t)).2 h x hrest

-- Calls show nothing.
theorem shownCards_calls {turns : List (Turn DecideCall Unit)} :
    shownCards (trace (Desk.turn machine) (turns.map .call) s) = [] := by
  induction turns generalizing s with
  | nil => rfl
  | cons t turns ih =>
      have hout : (s.turn machine (.call t)).1.filterMap DeskEvent.card = [] := by
        have ht := s.turn_turned machine (.call t)
        generalize (s.turn machine (.call t)).1 = out at ht
        generalize (s.turn machine (.call t)).2 = s' at ht
        cases ht with
        | called | idle => rfl
        | moved hd hmove => exact moved_no_card hmove
      have hrest := @ih (s.turn machine (.call t)).2
      rw [shownCards, events] at hrest
      rw [List.map_cons, trace, shownCards, events, List.flatMap_cons, List.filterMap_append, hrest,
        List.append_nil]
      exact hout

theorem orderly_arrival {input : WatchInput} {envelope : Proto.Envelope} {request : AccessRequest}
    (hsleep : s.watcher = .sleeping) (hinbox : input.inbox = some [envelope])
    (haccept : acceptRequest L envelope machine.account input.now = some request)
    (hnew : s.state.approvals.pending.lookup (hexEncode request.nonce.bytes) = none) :
    ∀ x ∈ trace (Desk.turn machine) (List.replicate 7 (.watch input)) s, Orderly x := by
  have hversion := acceptVersion_of_request haccept
  obtain ⟨watcher, ⟨st, threads⟩⟩ := s
  obtain rfl : watcher = .sleeping := hsleep
  have hlookup : st.approvals.pending.lookup (fileRequest input.io request st.ledger).id = none := hnew
  simp only [List.replicate, trace, taken, Desk.turn, Watching.run, Desk.state, hinbox, haccept, hversion,
    List.filterMap_cons, List.filterMap_nil, List.nil_append, Approvals.fileAll, hlookup,
    List.forall_mem_cons]
  refine ⟨orderly_watch ?_, orderly_watch ?_, orderly_watch ?_, orderly_watch ?_, orderly_watch ?_,
    orderly_watch ?_, orderly_watch ?_, by simp⟩ <;> rintro fresh ⟨⟩
  exact ⟨_, rfl, hlookup⟩

end Orderly

namespace Reference

-- The owner taps on the card, for a file that is still where it was locked.
def allowing (out : Bytes) : DecideCall := { tap .edit with fs := disk out }

def tapping (out : Bytes) : List DeskTurn :=
  .call (.start (allowing out)) :: List.replicate 11 (.call (.resume 0 ()))

-- The file was locked on this machine, and one device asks for it.
def lockedBy (h : Header) (headerHash : HeaderHash) : Ledger :=
  Ledger.empty.putFile (Entry.fromSeal h.body.fid headerHash "a.txt" sealed .defaultPolicy 50)

def requestBy (h : Header) (headerHash : HeaderHash) (sender : DeviceIdentity libraries) :
    AccessRequest :=
  buildRequest libraries ⟨h.body.fid, headerHash, [0x01, 0x02]⟩ sender .edit nonce 100

def pendingBy (h : Header) (headerHash : HeaderHash) (sender : DeviceIdentity libraries) :
    PendingRequest :=
  fileRequest .sound (requestBy h headerHash sender) (lockedBy h headerHash)

-- Whichever device's request is held under the nonce gets the file.
theorem messages_tapping {h : Header} {out headerBytes frames : Bytes}
    (s : SealedAs libraries.toPrimitives Core.Reference.input.data
      Core.Reference.owner.sealing.x25519Pk Core.Reference.owner.signing (options .defaultPolicy)
      Core.Reference.draws h out headerBytes frames) (sender : DeviceIdentity libraries)
    {a : Approvals} (hrecent : a.recent = [])
    (hp : a.pending.lookup (hexEncode nonce.bytes) =
      some (pendingBy h (libraries.sha256 headerBytes) sender)) :
    ∃ message terms, messages (trace (Desk.turn ownerMachine) (tapping out)
      ⟨.sleeping, ⟨⟨lockedBy h (libraries.sha256 headerBytes), a⟩, []⟩⟩) =
        [⟨requestBy h (libraries.sha256 headerBytes) sender, some terms, message⟩] := by
  have hentry : (pendingBy h (libraries.sha256 headerBytes) sender).entry = some
      (Entry.fromSeal h.body.fid (libraries.sha256 headerBytes) "a.txt" sealed .defaultPolicy 50) :=
    AList.lookup_insert _
  obtain ⟨terms, grant, answered, message, hanswer, -⟩ :=
    @answer_locked .defaultPolicy h out headerBytes frames s sender .edit (by decide)
      (pendingBy h (libraries.sha256 headerBytes) sender) (lockedBy h (libraries.sha256 headerBytes))
      hentry rfl
  refine ⟨message, terms, ?_⟩
  have hsent := @messages_tap libraries ownerMachine .sleeping
    ⟨lockedBy h (libraries.sha256 headerBytes), a⟩ (allowing out) _ hp rfl rfl
  rw [hrecent] at hsent
  exact hsent.trans (congrArg AnswerStep.sent hanswer)

-- The device asks, its card is shown, and the owner allows it.
theorem allowed_what_was_shown : ∃ (l : Ledger) (turns : List DeskTurn),
    (∀ x ∈ trace (Desk.turn ownerMachine) turns (.start l true), Orderly x) ∧
    (∃ out ∈ messages (trace (Desk.turn ownerMachine) turns (.start l true)), out.terms.isSome) ∧
    Along (fun pre x => ∀ e ∈ x.output, ∀ id request, e.answers = some (id, request) →
        ∃ index, x.input = .call (.resume index ()) ∧ Tapped pre index id request)
      (trace (Desk.turn ownerMachine) turns (.start l true)) := by
  obtain ⟨h, out, headerBytes, frames, -, s⟩ := container_sealed .defaultPolicy
  let l := lockedBy h (libraries.sha256 headerBytes)
  obtain ⟨envelope, haccept⟩ := @acceptRequest_signed device
    ⟨h.body.fid, libraries.sha256 headerBytes, [0x01, 0x02]⟩ rfl
  let waits := (Approvals.start true).insert (pendingBy h (libraries.sha256 headerBytes) device)
  have hwaits : final (Desk.turn ownerMachine) (List.replicate 7 (.watch (watching 100 envelope)))
      (.start l true) = ⟨.sleeping, ⟨⟨l, waits⟩, []⟩⟩ :=
    (@arrives_new libraries ownerMachine (.start l true) (watching 100 envelope) envelope _ rfl rfl
      haccept rfl).2
  obtain ⟨message, terms, hsent⟩ := @messages_tapping h out headerBytes frames s device waits rfl
    (AList.lookup_insert _)
  have hcalm : ∀ x ∈ trace (Desk.turn ownerMachine)
      (List.replicate 7 (.watch (watching 100 envelope)) ++ tapping out) (.start l true), Orderly x := by
    intro x hx
    rw [trace_append, hwaits] at hx
    rcases List.mem_append.mp hx with harrival | htap
    · exact orderly_arrival rfl rfl haccept rfl x harrival
    · exact @orderly_calls libraries ownerMachine _
        (.start (allowing out) :: List.replicate 11 (.resume 0 ())) rfl x htap
  refine ⟨l, _, hcalm, ⟨⟨requestBy h (libraries.sha256 headerBytes) device, some terms, message⟩, ?_, rfl⟩,
    answers_what_was_shown ownerMachine l true _ hcalm⟩
  rw [trace_append, hwaits, messages_append, hsent]
  exact List.mem_append_right _ (List.mem_singleton_self _)

-- Another device asks with the same nonce before the owner taps. It gets the file, and no card was
-- ever shown for it.
theorem allowed_what_was_not_shown : ∃ (l : Ledger) (turns : List DeskTurn) (out : Sent)
    (terms : AccessGrantTerms),
    out ∈ messages (trace (Desk.turn ownerMachine) turns (.start l true)) ∧ out.terms = some terms ∧
    ∀ c ∈ shownCards (trace (Desk.turn ownerMachine) turns (.start l true)),
      c.pending.request.ed25519Pub ≠ out.request.ed25519Pub := by
  obtain ⟨h, out, headerBytes, frames, -, s⟩ := container_sealed .defaultPolicy
  let l := lockedBy h (libraries.sha256 headerBytes)
  let waits := (Approvals.start true).insert (pendingBy h (libraries.sha256 headerBytes) device)
  obtain ⟨envelope, haccept⟩ := @acceptRequest_signed device
    ⟨h.body.fid, libraries.sha256 headerBytes, [0x01, 0x02]⟩ rfl
  obtain ⟨envelope', haccept'⟩ := @acceptRequest_signed stranger
    ⟨h.body.fid, libraries.sha256 headerBytes, [0x01, 0x02]⟩ rfl
  let both := waits.insert (pendingBy h (libraries.sha256 headerBytes) stranger)
  have harrives : events (trace (Desk.turn ownerMachine)
        (List.replicate 7 (.watch (watching 100 envelope))) (.start l true)) =
          [.shown ⟨pendingBy h (libraries.sha256 headerBytes) device,
            (pendingBy h (libraries.sha256 headerBytes) device).incomingOn true⟩] ∧
      final (Desk.turn ownerMachine) (List.replicate 7 (.watch (watching 100 envelope)))
        (.start l true) = ⟨.sleeping, ⟨⟨l, waits⟩, []⟩⟩ :=
    @arrives_new libraries ownerMachine (.start l true) (watching 100 envelope) envelope _ rfl rfl
      haccept rfl
  have hreplaces : events (trace (Desk.turn ownerMachine)
        (List.replicate 6 (.watch (watching 100 envelope'))) ⟨.sleeping, ⟨⟨l, waits⟩, []⟩⟩) = [] ∧
      final (Desk.turn ownerMachine) (List.replicate 6 (.watch (watching 100 envelope')))
        ⟨.sleeping, ⟨⟨l, waits⟩, []⟩⟩ = ⟨.sleeping, ⟨⟨l, both⟩, []⟩⟩ :=
    @arrives_held libraries ownerMachine ⟨.sleeping, ⟨⟨l, waits⟩, []⟩⟩ (watching 100 envelope')
      envelope' _ rfl rfl haccept' _ (AList.lookup_insert _)
  obtain ⟨message, terms, hsent⟩ := @messages_tapping h out headerBytes frames s stranger both rfl
    (AList.lookup_insert _)
  have hquiet : shownCards (trace (Desk.turn ownerMachine) (tapping out)
      ⟨.sleeping, ⟨⟨l, both⟩, []⟩⟩) = [] :=
    @shownCards_calls libraries ownerMachine ⟨.sleeping, ⟨⟨l, both⟩, []⟩⟩
      (.start (allowing out) :: List.replicate 11 (.resume 0 ()))
  refine ⟨l, List.replicate 7 (.watch (watching 100 envelope)) ++
    (List.replicate 6 (.watch (watching 100 envelope')) ++ tapping out),
    ⟨requestBy h (libraries.sha256 headerBytes) stranger, some terms, message⟩, terms, ?_, rfl, ?_⟩
  · rw [trace_append, harrives.2, trace_append, hreplaces.2, messages_append, messages_append, hsent]
    simp
  · intro c hc
    rw [trace_append, harrives.2, trace_append, hreplaces.2, shownCards, events_append, events_append,
      harrives.1, hreplaces.1, List.nil_append, List.filterMap_append, ← shownCards, hquiet,
      List.append_nil] at hc
    obtain rfl := List.mem_singleton.mp hc
    exact show device.ed25519Pub ≠ stranger.ed25519Pub by decide

end Reference

end Zbacs.Agent
