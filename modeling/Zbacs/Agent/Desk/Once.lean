import Zbacs.Agent.Desk.Theorems

namespace Zbacs.Agent

open Zbacs.Lib Zbacs.Core Zbacs.Proto

-- How many of the messages that have gone out answer one nonce.
def answersTo (log : List DeskStep) (nonce : FixedBytes 16) : Nat :=
  (messages log).countP fun out => out.message.requestNonce = nonce

-- The call may still answer a request with this nonce.
def Deciding.mayAnswer (nonce : FixedBytes 16) (d : Deciding) : Bool :=
  match d.stage.progress with
  | .holding p => p.request.nonce = nonce
  | _ => false

-- The call has looked its request up and not removed it yet.
def Deciding.inFlight (d : Deciding) : Bool :=
  match d.stage.progress with
  | .holding _ | .delivered => true
  | _ => false

-- A tap looks its request up while another call on it is in flight.
def Overlaps (x : DeskStep) : Prop :=
  ∃ index d other, x.input = .call (.resume index ()) ∧ x.before.calls.threads[index]? = some d ∧
    d.stage.progress = .waiting ∧ other ∈ x.before.calls.threads ∧ other.call.id = d.call.id ∧
    other.inFlight = true

-- A request is filed although its nonce was answered, and no call is left that would remove it.
def Refiles (log : List DeskStep) (x : DeskStep) : Prop :=
  ∃ input fresh p, x.input = .watch input ∧ x.before.watcher = .filing fresh ∧ p ∈ fresh ∧
    0 < answersTo log p.request.nonce ∧
    ∀ d ∈ x.before.calls.threads, d.call.id = p.id → d.inFlight = false

-- A call goes on whose message reaches a relay that is reported as out of reach.
def Loses (x : DeskStep) : Prop :=
  ∃ index d p e, x.input = .call (.resume index ()) ∧ x.before.calls.threads[index]? = some d ∧
    d.stage.progress = .holding p ∧ d.call.env.relay = .error e ∧ d.call.lost = true

structure Unrepeated (log : List DeskStep) (x : DeskStep) : Prop where
  alone : ¬Overlaps x
  once : ¬Refiles log x
  heard : ¬Loses x

-- A nonce is answered or may be answered at most once, and while an answered request is held, the
-- call that answered it is about to remove it.
structure Once (log : List DeskStep) (s : Desk) : Prop where
  single : ∀ nonce, answersTo log nonce + s.calls.threads.countP (Deciding.mayAnswer nonce) ≤ 1
  removing : ∀ id p, s.state.approvals.pending.lookup id = some p →
    0 < answersTo log p.request.nonce →
    ∃ d ∈ s.calls.threads, d.call.id = id ∧ d.stage.progress = .delivered
  keyed : ∀ d ∈ s.calls.threads, ∀ p, d.stage.progress = .holding p → p.id = d.call.id

section

variable {L : Libraries} {machine : OwnerMachine L} {log : List DeskStep} {s s' : Desk} {x : DeskStep}
  {nonce : FixedBytes 16} {index : Nat} {d d' : Deciding} {p : PendingRequest} {st : AppState}

theorem answersTo_concat : answersTo (log ++ [x]) nonce =
    answersTo log nonce + (x.output.filterMap DeskEvent.sentOut).countP
      fun out => out.message.requestNonce = nonce := by
  simp [answersTo, messages, events, List.flatMap_append, List.filterMap_append, List.countP_append]

theorem answersTo_silent (h : x.output.filterMap DeskEvent.sentOut = []) :
    answersTo (log ++ [x]) nonce = answersTo log nonce := by
  rw [answersTo_concat, h]
  rfl

theorem mayAnswer_eq_true : d.mayAnswer nonce = true ↔
    ∃ p, d.stage.progress = .holding p ∧ p.request.nonce = nonce := by
  unfold Deciding.mayAnswer
  cases d.stage.progress <;> simp

theorem mayAnswer_of_holding (h : d.stage.progress = .holding p) :
    d.mayAnswer nonce = decide (p.request.nonce = nonce) := by
  simp [Deciding.mayAnswer, h]

theorem mayAnswer_of_not_holding (h : ∀ p, d.stage.progress ≠ .holding p) :
    d.mayAnswer nonce = false := by
  cases hmay : d.mayAnswer nonce with
  | false => rfl
  | true =>
      obtain ⟨p, hp, -⟩ := mayAnswer_eq_true.mp hmay
      exact absurd hp (h p)

theorem nonce_eq_of_id_eq {p q : PendingRequest} (h : p.id = q.id) : p.request.nonce = q.request.nonce :=
  FixedBytes.ext (hexEncode_injective h)

-- While a call may answer a nonce, it has not been answered.
theorem Once.unanswered (h : Once log s) (hd : d ∈ s.calls.threads)
    (hp : d.stage.progress = .holding p) : answersTo log p.request.nonce = 0 := by
  have hpos : 0 < s.calls.threads.countP (Deciding.mayAnswer p.request.nonce) :=
    List.countP_pos_iff.mpr ⟨d, hd, mayAnswer_eq_true.mpr ⟨p, hp, rfl⟩⟩
  have hsingle := h.single p.request.nonce
  omega

-- A step without a message that holds on to nothing more.
theorem Once.keep (h : Once log s) (hsilent : x.output.filterMap DeskEvent.sentOut = [])
    (hpending : ∀ id p, s'.state.approvals.pending.lookup id = some p →
      s.state.approvals.pending.lookup id = some p)
    (hthreads : s'.calls.threads = s.calls.threads) : Once (log ++ [x]) s' where
  single nonce := by
    rw [answersTo_silent hsilent, hthreads]
    exact h.single nonce
  removing id p hp hanswered := by
    rw [answersTo_silent hsilent] at hanswered
    rw [hthreads]
    exact h.removing id p (hpending id p hp) hanswered
  keyed := by
    rw [hthreads]
    exact h.keyed

theorem Once.single_set (h : Once log s) (hd : s.calls.threads[index]? = some d)
    (hle : answersTo (log ++ [x]) nonce + (if d'.mayAnswer nonce then 1 else 0) ≤
      answersTo log nonce + (if d.mayAnswer nonce then 1 else 0)) :
    answersTo (log ++ [x]) nonce +
      (s.calls.threads.set index d').countP (Deciding.mayAnswer nonce) ≤ 1 := by
  have hcount := @countP_set_add _ _ _ _ d' (Deciding.mayAnswer nonce) hd
  have hsingle := h.single nonce
  omega

theorem Once.keyed_set (h : Once log s)
    (hkeyed : ∀ p, d'.stage.progress = .holding p → p.id = d'.call.id) :
    ∀ c ∈ s.calls.threads.set index d', ∀ p, c.stage.progress = .holding p → p.id = c.call.id := by
  intro c hc
  rcases List.mem_or_eq_of_mem_set hc with hold | rfl
  · exact h.keyed c hold
  · exact hkeyed

-- The call that is about to remove the request is still there, if it is not the one that moved.
theorem Once.removing_set (h : Once log s) (hd : s.calls.threads[index]? = some d) {id : String}
    (hp : s.state.approvals.pending.lookup id = some p) (hanswered : 0 < answersTo log p.request.nonce)
    (hmoved : d.stage.progress = .delivered → d.call.id = id →
      d'.call.id = id ∧ d'.stage.progress = .delivered) :
    ∃ c ∈ s.calls.threads.set index d', c.call.id = id ∧ c.stage.progress = .delivered := by
  obtain ⟨c, hc, hid, hprogress⟩ := h.removing id p hp hanswered
  by_cases hcd : c = d
  · subst hcd
    obtain ⟨hid', hprogress'⟩ := hmoved hprogress hid
    obtain ⟨hlt, -⟩ := List.getElem?_eq_some_iff.mp hd
    exact ⟨d', List.mem_set hlt d', hid', hprogress'⟩
  · exact ⟨c, mem_set_of_ne hd hc hcd, hid, hprogress⟩

-- A call goes on without a message and holds on to nothing more.
theorem Once.keep_set (h : Once log s) (hd : s.calls.threads[index]? = some d)
    (hsilent : x.output.filterMap DeskEvent.sentOut = [])
    (hpending : ∀ id p, st.approvals.pending.lookup id = some p →
      s.state.approvals.pending.lookup id = some p)
    (hmay : ∀ p, d'.stage.progress = .holding p → d.stage.progress = .holding p)
    (hcall : d'.call.id = d.call.id)
    (hmoved : d.stage.progress = .delivered → d'.stage.progress = .delivered ∨
      ∀ p, st.approvals.pending.lookup d.call.id ≠ some p) :
    Once (log ++ [x]) ⟨s.watcher, ⟨st, s.calls.threads.set index d'⟩⟩ where
  single nonce := by
    refine h.single_set hd ?_
    rw [answersTo_silent hsilent]
    refine Nat.add_le_add_left ?_ _
    split
    · rename_i hmay'
      obtain ⟨p, hp, hnonce⟩ := mayAnswer_eq_true.mp hmay'
      rw [if_pos (mayAnswer_eq_true.mpr ⟨p, hmay p hp, hnonce⟩)]
    · exact Nat.zero_le _
  removing id p hp hanswered := by
    rw [answersTo_silent hsilent] at hanswered
    refine h.removing_set hd (hpending id p hp) hanswered fun hdelivered hid => ?_
    rcases hmoved hdelivered with hstill | hgone
    · exact ⟨hcall.trans hid, hstill⟩
    · exact absurd hp (hid ▸ hgone p)
  keyed := h.keyed_set fun p hp => by
    rw [hcall]
    exact h.keyed d (List.mem_of_getElem? hd) p (hmay p hp)

theorem Once.took (h : Once log s) (hd : s.calls.threads[index]? = some d)
    (hwaiting : d.stage.progress = .waiting)
    (hp : s.state.approvals.pending.lookup d.call.id = some p)
    (hholding : d'.stage.progress = .holding p) (hcall : d'.call.id = d.call.id) {after : Desk}
    (hcalm : ¬Overlaps ⟨s, .call (.resume index ()), [], after⟩) :
    Once (log ++ [⟨s, .call (.resume index ()), [], after⟩])
      ⟨s.watcher, ⟨s.state, s.calls.threads.set index d'⟩⟩ := by
  have hid : p.id = d.call.id := s.state.approvals.keyed _ _ hp
  -- no other call is in flight, so nothing has been answered and nothing may be
  have halone : ∀ c ∈ s.calls.threads, c.call.id = d.call.id → c.inFlight = false := by
    intro c hc hcid
    cases hflight : c.inFlight with
    | false => rfl
    | true => exact absurd ⟨index, d, c, rfl, hd, hwaiting, hc, hcid, hflight⟩ hcalm
  have hfresh : answersTo log p.request.nonce = 0 := by
    by_contra hpos
    obtain ⟨c, hc, hcid, hprogress⟩ := h.removing _ p hp (Nat.pos_of_ne_zero hpos)
    have hflight := halone c hc hcid
    simp [Deciding.inFlight, hprogress] at hflight
  have hnone : s.calls.threads.countP (Deciding.mayAnswer p.request.nonce) = 0 := by
    rw [List.countP_eq_zero]
    intro c hc hmay
    obtain ⟨q, hq, hnonce⟩ := mayAnswer_eq_true.mp hmay
    have hcid : c.call.id = d.call.id := by
      rw [← h.keyed c hc q hq, ← hid, PendingRequest.id, PendingRequest.id, hnonce]
    have hflight := halone c hc hcid
    simp [Deciding.inFlight, hq] at hflight
  have hnot : ∀ nonce, d.mayAnswer nonce = false := fun nonce =>
    mayAnswer_of_not_holding fun q hq => by
      rw [hwaiting] at hq
      cases hq
  refine ⟨fun nonce => ?_, fun id q hq hanswered => ?_, h.keyed_set fun q hq => ?_⟩
  · have hcount := @countP_set_add _ _ _ _ d' (Deciding.mayAnswer nonce) hd
    rw [hnot nonce, mayAnswer_of_holding hholding, if_neg Bool.false_ne_true, Nat.add_zero] at hcount
    rw [answersTo_silent rfl]
    dsimp only
    rw [hcount]
    by_cases hnonce : p.request.nonce = nonce
    · subst hnonce
      rw [hnone, hfresh, if_pos (decide_eq_true rfl)]
    · rw [if_neg (by simp [hnonce]), Nat.add_zero]
      exact h.single nonce
  · rw [answersTo_silent rfl] at hanswered
    refine h.removing_set hd hq hanswered fun hdelivered _ => ?_
    rw [hwaiting] at hdelivered
    cases hdelivered
  · obtain rfl := Progress.holding.inj (hholding.symm.trans hq)
    exact hid.trans hcall.symm

theorem Once.delivered (h : Once log s) (hd : s.calls.threads[index]? = some d)
    (hholding : d.stage.progress = .holding p) (hdelivered : d'.stage.progress = .delivered)
    (hcall : d'.call.id = d.call.id) {out : Sent} (hnonce : out.message.requestNonce = p.request.nonce)
    {after : Desk} {a : DeskTurn} :
    Once (log ++ [⟨s, a, [.sent d.call.id out], after⟩])
      ⟨s.watcher, ⟨s.state, s.calls.threads.set index d'⟩⟩ := by
  have hanswers : ∀ nonce, answersTo (log ++ [⟨s, a, [.sent d.call.id out], after⟩]) nonce =
      answersTo log nonce + if p.request.nonce = nonce then 1 else 0 := by
    intro nonce
    rw [answersTo_concat, ← hnonce]
    simp [DeskEvent.sentOut, List.countP_cons]
  have hid : p.id = d.call.id := h.keyed d (List.mem_of_getElem? hd) p hholding
  obtain ⟨hlt, -⟩ := List.getElem?_eq_some_iff.mp hd
  refine ⟨fun nonce => h.single_set hd ?_, fun id q hq hanswered => ?_, h.keyed_set fun q hq => ?_⟩
  · rw [hanswers, mayAnswer_of_holding hholding, mayAnswer_of_not_holding fun q hq => by
      rw [hdelivered] at hq
      cases hq]
    simp
  · by_cases hsame : p.request.nonce = q.request.nonce
    · refine ⟨d', List.mem_set hlt d', ?_, hdelivered⟩
      rw [hcall, ← hid, ← s.state.approvals.keyed id q hq, PendingRequest.id, PendingRequest.id, hsame]
    · rw [hanswers, if_neg hsame] at hanswered
      refine h.removing_set hd hq hanswered fun hprogress _ => ?_
      rw [hholding] at hprogress
      cases hprogress
  · rw [hdelivered] at hq
    cases hq

theorem Once.moved (h : Once log s) (hd : s.calls.threads[index]? = some d) {out : List DeskEvent}
    (hmove : Moved d s.state out d' st)
    (hcalm : Unrepeated log ⟨s, .call (.resume index ()), out,
      ⟨s.watcher, ⟨st, s.calls.threads.set index d'⟩⟩⟩) :
    Once (log ++ [⟨s, .call (.resume index ()), out,
        ⟨s.watcher, ⟨st, s.calls.threads.set index d'⟩⟩⟩])
      ⟨s.watcher, ⟨st, s.calls.threads.set index d'⟩⟩ := by
  cases hmove with
  | took hwaiting hp hholding hcall => exact h.took hd hwaiting hp hholding hcall hcalm.alone
  | missed hwaiting hclosed hcall =>
      exact h.keep_set hd rfl (fun _ _ hp => hp) (by simp [hclosed]) hcall (by simp [hwaiting])
  | worked hholding hnext hcall _ habout =>
      have hsilent : out.filterMap DeskEvent.sentOut = [] :=
        List.filterMap_eq_nil_iff.mpr fun e he => (habout e he).2
      refine h.keep_set hd hsilent (fun _ _ hp => hp) (fun q hq => ?_) hcall (by simp [hholding])
      rcases hnext with hsame | hclosed
      · rw [hholding, ← hsame, hq]
      · rw [hclosed] at hq
        cases hq
  | delivered hholding hdelivered hcall habout =>
      exact h.delivered hd hholding hdelivered hcall (habout.nonce _ rfl)
  | lost hholding _ _ hrelay hlost _ =>
      exact absurd ⟨index, d, _, _, rfl, hd, hholding, hrelay, hlost⟩ hcalm.heard
  | recorded _ hdelivered hcall _ =>
      exact h.keep_set hd rfl (fun _ _ hp => hp) (by simp [hdelivered]) hcall fun _ => .inl hdelivered
  | removed _ hclosed hcall =>
      refine h.keep_set hd rfl (fun _ _ hp => lookup_remove hp) (by simp [hclosed]) hcall
        fun _ => .inr fun p hp => ?_
      rw [Approvals.remove, AList.lookup_erase] at hp
      cases hp
  | settled hclosed hclosed' hcall hpending =>
      exact h.keep_set hd rfl (fun _ _ hp => hpending ▸ hp) (by simp [hclosed']) hcall
        (by simp [hclosed])

-- A batch is filed: what it brings was not answered, or will be removed.
theorem Once.filed (h : Once log s) {input : WatchInput} {fresh : List PendingRequest} {w : Watching}
    (hw : s.watcher = .filing fresh) {after : Desk}
    (hcalm : ¬Refiles log ⟨s, .watch input, [], after⟩) :
    Once (log ++ [⟨s, .watch input, [], after⟩])
      ⟨w, ⟨{ s.state with approvals := (s.state.approvals.fileAll fresh).2 }, s.calls.threads⟩⟩ := by
  refine ⟨fun nonce => ?_, fun id p hp hanswered => ?_, h.keyed⟩
  · rw [answersTo_silent rfl]
    exact h.single nonce
  · rw [answersTo_silent rfl] at hanswered
    rcases mem_of_fileAll hp with hmem | hold
    · obtain rfl : p.id = id := (s.state.approvals.fileAll fresh).2.keyed id p hp
      by_contra hnone
      refine hcalm ⟨input, fresh, p, rfl, hw, hmem, hanswered, fun d hd hid => ?_⟩
      -- a call in flight on it has delivered: else it would still be unanswered
      unfold Deciding.inFlight
      split
      · rename_i q hq
        have hzero := h.unanswered hd hq
        rw [nonce_eq_of_id_eq ((h.keyed d hd q hq).trans hid)] at hzero
        omega
      · rename_i hdelivered
        exact absurd ⟨d, hd, hid, hdelivered⟩ hnone
      · rfl
    · exact h.removing id p hold hanswered

theorem Once.turned {a : DeskTurn} {out : List DeskEvent} (h : Once log s) (ht : Turned s a out s')
    (hcalm : Unrepeated log ⟨s, a, out, s'⟩) : Once (log ++ [⟨s, a, out, s'⟩]) s' := by
  cases ht with
  | watched hw =>
      cases hw with
      | filed hfiling => exact h.filed hfiling hcalm.once
      | quiet | advanced | found | showed => exact h.keep rfl (fun _ _ hp => hp) rfl
  | called call =>
      refine ⟨fun nonce => ?_, fun id p hp hanswered => ?_, fun d hd p hp => ?_⟩
      · rw [answersTo_silent rfl, List.countP_append]
        exact h.single nonce
      · rw [answersTo_silent rfl] at hanswered
        obtain ⟨d, hd, hid, hdelivered⟩ := h.removing id p hp hanswered
        exact ⟨d, List.mem_append_left _ hd, hid, hdelivered⟩
      · rcases List.mem_append.mp hd with hold | hnew
        · exact h.keyed d hold p hp
        · rw [List.mem_singleton.mp hnew] at hp
          cases hp
  | moved hd hmove => exact h.moved hd hmove hcalm
  | idle index => exact h.keep rfl (fun _ _ hp => hp) rfl

end

-- In every run in which taps on a request do not overlap, no answered request comes back, and no
-- message that went out is taken for lost, a nonce is answered at most once.
theorem answered_at_most_once {L : Libraries} (machine : OwnerMachine L) (l : Ledger)
    (editSupported : Bool) (turns : List DeskTurn)
    (hcalm : Along Unrepeated (trace (Desk.turn machine) turns (.start l editSupported)))
    (nonce : FixedBytes 16) :
    answersTo (trace (Desk.turn machine) turns (.start l editSupported)) nonce ≤ 1 := by
  have hinv := @trace_induct_along _ _ _ (Desk.turn machine) Unrepeated Once (.start l editSupported)
    ?_ ?_ turns hcalm
  · have hsingle := hinv.single nonce
    omega
  · refine ⟨fun _ => Nat.zero_le _, fun id p hp _ => ?_, fun d hd => ?_⟩
    · simp [Desk.state, Desk.start, Approvals.start] at hp
    · cases hd
  · intro log s a h hok
    exact h.turned (s.turn_turned machine a) hok

section Watching

variable {L : Libraries} {machine : OwnerMachine L} {log : List DeskStep} {s : Desk}

-- The watcher by itself disturbs nothing.
theorem unrepeated_watch {inputs : List WatchInput} (h : messages log = []) :
    AlongFrom Unrepeated log (trace (Desk.turn machine) (inputs.map .watch) s) := by
  induction inputs generalizing log s with
  | nil => trivial
  | cons input inputs ih =>
      refine ⟨⟨?_, ?_, ?_⟩, ih ?_⟩
      · rintro ⟨_, _, _, hinput, -⟩
        cases hinput
      · rintro ⟨_, _, _, -, -, -, hanswered, -⟩
        rw [answersTo, h] at hanswered
        cases hanswered
      · rintro ⟨_, _, _, _, hinput, -⟩
        cases hinput
      · rw [messages_append, h, List.nil_append, messages, events, List.flatMap_singleton]
        exact (s.watcher.run_moved machine input s.state).silent

end Watching

section Refusing

variable {L : Libraries} {machine : OwnerMachine L} {call : DecideCall} {p : PendingRequest}
  {w : Watching} {st : AppState}

def oneTap (call : DecideCall) : List DeskTurn :=
  .call (.start call) :: List.replicate 3 (.call (.resume 0 ()))

-- On the screen and on the notification, one right after the other.
def twoTaps (call : DecideCall) : List DeskTurn :=
  [.call (.start call), .call (.start call), .call (.resume 0 ()), .call (.resume 1 ()),
    .call (.resume 0 ()), .call (.resume 1 ()), .call (.resume 0 ()), .call (.resume 1 ())]

-- With one call there is nobody to overlap with.
theorem unrepeated_single {log : List DeskStep} {s after : Desk} {t : Turn DecideCall Unit}
    {out : List DeskEvent}
    (h : ∀ d ∈ s.calls.threads, s.calls.threads = [d] ∧ d.call.lost = false) :
    Unrepeated log ⟨s, .call t, out, after⟩ := by
  refine ⟨?_, ?_, ?_⟩
  · rintro ⟨index, d, other, -, hd, hwaiting, hother, -, hflight⟩
    rw [show _ = [d] from (h d (List.mem_of_getElem? hd)).1, List.mem_singleton] at hother
    subst hother
    simp [Deciding.inFlight, hwaiting] at hflight
  · rintro ⟨_, _, _, hinput, -⟩
    cases hinput
  · rintro ⟨index, d, _, _, -, hd, -, -, hlost⟩
    rw [show d.call.lost = false from (h d (List.mem_of_getElem? hd)).2] at hlost
    cases hlost

variable (hp : st.approvals.pending.lookup call.id = some p) (hready : call.ready = .ok ())
  (hdeny : call.decision = .deny) (hrelay : call.env.relay = .ok ())

include hp hready

theorem unrepeated_oneTap (hlost : call.lost = false) {log : List DeskStep} :
    AlongFrom Unrepeated log (trace (Desk.turn machine) (oneTap call) ⟨w, ⟨st, []⟩⟩) := by
  refine ⟨unrepeated_single ?_, unrepeated_single ?_, unrepeated_single ?_, unrepeated_single ?_,
    trivial⟩ <;>
    simp [Desk.turn, Threads.turn, Deciding.called, Deciding.run, hp, hready, Deciding.goTo, hlost]

include hdeny hrelay

theorem messages_oneTap :
    messages (trace (Desk.turn machine) (oneTap call) ⟨w, ⟨st, []⟩⟩) = [refusal call p] := by
  simp [messages, events, oneTap, trace, taken, Desk.turn, Threads.turn, Deciding.called, Deciding.run,
    hp, hready, hdeny, hrelay, Deciding.goTo, Deciding.begin, Deciding.deliver]
  rfl

theorem messages_twoTaps : messages (trace (Desk.turn machine) (twoTaps call) ⟨w, ⟨st, []⟩⟩) =
    [refusal call p, refusal call p] := by
  simp [messages, events, twoTaps, trace, taken, Desk.turn, Threads.turn, Deciding.called, Deciding.run,
    hp, hready, hdeny, hrelay, Deciding.goTo, Deciding.begin, Deciding.deliver]
  rfl

end Refusing

namespace Reference

-- Somebody asks for a file this machine has no record of, and the owner refuses.
def unknownTarget : Target := ⟨.replicate 32 1, .replicate 32 2, [0x01, 0x02]⟩

def refusing (device : DeviceIdentity libraries) : PendingRequest :=
  fileRequest .sound (buildRequest libraries unknownTarget device .edit nonce 100) .empty

-- The request has come in and waits.
theorem refusing_waits : ∃ envelope,
    messages (trace (Desk.turn ownerMachine) (List.replicate 7 (.watch (watching 100 envelope)))
      (.start .empty true)) = [] ∧
    final (Desk.turn ownerMachine) (List.replicate 7 (.watch (watching 100 envelope)))
      (.start .empty true) =
        ⟨.sleeping, ⟨⟨.empty, (Approvals.start true).insert (refusing device)⟩, []⟩⟩ := by
  obtain ⟨envelope, haccept⟩ := acceptRequest_signed device (show unknownTarget.owner = _ from rfl)
  obtain ⟨hevents, hfinal⟩ := @arrives_new libraries ownerMachine (.start .empty true)
    (watching 100 envelope) envelope _ rfl rfl haccept rfl
  refine ⟨envelope, ?_, hfinal⟩
  rw [messages, hevents]
  rfl

theorem refusing_held : ((Approvals.start true).insert (refusing device)).pending.lookup (tap .deny).id =
    some (refusing device) := AList.lookup_insert _

-- One request, one tap, one answer.
theorem refused_once : ∃ turns : List DeskTurn,
    Along Unrepeated (trace (Desk.turn ownerMachine) turns (.start .empty true)) ∧
    0 < answersTo (trace (Desk.turn ownerMachine) turns (.start .empty true)) nonce ∧
    answersTo (trace (Desk.turn ownerMachine) turns (.start .empty true)) nonce ≤ 1 := by
  obtain ⟨envelope, hsilent, hwaits⟩ := refusing_waits
  let turns : List DeskTurn := List.replicate 7 (.watch (watching 100 envelope)) ++ oneTap (tap .deny)
  have hcalm : Along Unrepeated (trace (Desk.turn ownerMachine) turns (.start .empty true)) := by
    refine AlongFrom.along ?_
    rw [trace_append, hwaits, alongFrom_append]
    refine ⟨?_, unrepeated_oneTap refusing_held rfl rfl⟩
    exact @unrepeated_watch libraries ownerMachine [] (.start .empty true)
      (List.replicate 7 (watching 100 envelope)) rfl
  refine ⟨turns, hcalm, ?_, answered_at_most_once ownerMachine .empty true turns hcalm nonce⟩
  rw [answersTo, trace_append, hwaits, messages_append, hsilent, List.nil_append,
    messages_oneTap refusing_held rfl rfl rfl]
  decide

-- One request, two taps, two answers.
theorem refused_twice : ∃ turns : List DeskTurn,
    answersTo (trace (Desk.turn ownerMachine) turns (.start .empty true)) nonce = 2 := by
  obtain ⟨envelope, hsilent, hwaits⟩ := refusing_waits
  refine ⟨List.replicate 7 (.watch (watching 100 envelope)) ++ twoTaps (tap .deny), ?_⟩
  rw [answersTo, trace_append, hwaits, messages_append, hsilent, List.nil_append,
    messages_twoTaps refusing_held rfl rfl rfl]
  decide

end Reference

end Zbacs.Agent
