import Zbacs.Agent.Desk.Theorems

namespace Zbacs.Agent

open Zbacs.Lib Zbacs.Core Zbacs.Proto

-- The record has this version of the file.
def Ledger.Names (l : Ledger) (fid headerHash : FixedBytes 32) : Prop :=
  ∃ e, l.files.lookup (hexEncode fid.bytes) = some e ∧ e.headerHash = hexEncode headerHash.bytes

-- A request is held while it is being filed, while it waits, and while a call may still answer it.
def Desk.Holds (s : Desk) (p : PendingRequest) : Prop :=
  (∃ id, s.state.approvals.pending.lookup id = some p) ∨ p ∈ s.watcher.fresh ∨
    ∃ d ∈ s.calls.threads, d.stage.progress = .holding p

-- A notice is taken into the record while a request for that file is held that was for the version
-- on record when it came.
def Supersedes (x : DeskStep) : Prop :=
  ∃ input notice notices requests entry l p, x.input = .watch input ∧
    x.before.watcher = .noticing (notice :: notices) requests ∧
    applyVersion input.notice notice x.before.state.ledger = (.ok entry, l) ∧
    x.before.Holds p ∧ p.sameVersion = true ∧ p.request.fid = notice.fid

-- Every request that is held and can be allowed is for the version on record.
def Desk.Fresh (s : Desk) : Prop :=
  ∀ p, s.Holds p → p.sameVersion = true → s.state.ledger.Names p.request.fid p.request.headerHash

section

variable {L : Libraries} {machine : OwnerMachine L} {s s' : Desk} {p : PendingRequest}

theorem Ledger.Names.congr {l l' : Ledger} {fid headerHash : FixedBytes 32}
    (h : l.Names fid headerHash) (hfiles : l'.files = l.files) : l'.Names fid headerHash := by
  obtain ⟨e, he, hhash⟩ := h
  exact ⟨e, by rw [hfiles]; exact he, hhash⟩

theorem Desk.Fresh.keep (h : s.Fresh) (hfiles : s'.state.ledger.files = s.state.ledger.files)
    (hholds : ∀ p, s'.Holds p → s.Holds p) : s'.Fresh := by
  intro p hp hsame
  exact (h p (hholds p hp) hsame).congr hfiles

-- A request that is filed goes with what is on record.
theorem names_fileRequest {io : LedgerIo} {request : AccessRequest} {l : Ledger}
    (h : (fileRequest io request l).sameVersion = true) : l.Names request.fid request.headerHash := by
  simp only [PendingRequest.sameVersion, fileRequest, Ledger.find] at h
  split_ifs at h
  · cases he : l.files.lookup (hexEncode request.fid.bytes) with
    | none => simp [he] at h
    | some e =>
        rw [he, Option.any_some] at h
        exact ⟨e, he, of_decide_eq_true h⟩
  · cases h

-- A notice moves only the record of its own file.
theorem names_of_applyVersion {env : NoticeEnv} {notice : VersionMsg} {entry : Entry} {l l' : Ledger}
    (h : applyVersion env notice l = (.ok entry, l')) {fid headerHash : FixedBytes 32}
    (hne : fid ≠ notice.fid) (hnames : l.Names fid headerHash) : l'.Names fid headerHash := by
  obtain ⟨-, hadvance⟩ := applyVersion_eq_ok.mp h
  obtain ⟨-, old, hold, -, -, rfl, rfl⟩ := Ledger.advanceVersion_eq_ok.mp hadvance
  obtain ⟨e, he, hhash⟩ := hnames
  refine ⟨e, ?_, hhash⟩
  have hkey : hexEncode fid.bytes ≠ old.fid := by
    rw [l.fileKeyed _ _ hold]
    exact fun heq => hne (FixedBytes.ext (hexEncode_injective heq))
  rw [Ledger.putFile, AList.lookup_insert_ne hkey]
  exact he

theorem watched_fresh {input : WatchInput} {out : List DeskEvent} {w : Watching} {st : AppState}
    (h : s.Fresh) (hw : WatcherMoved s.state input s.watcher out w st) {after : Desk}
    (hcalm : ¬Supersedes ⟨s, .watch input, out, after⟩) :
    Desk.Fresh ⟨w, ⟨st, s.calls.threads⟩⟩ := by
  cases hw with
  | quiet hfresh _ hfiles =>
      refine h.keep hfiles fun p hp => ?_
      rcases hp with hpending | hmem | hcall
      · exact .inl hpending
      · exact .inr (.inl (hfresh ▸ hmem))
      · exact .inr (.inr hcall)
  | @advanced _ l notice notices requests entry hw happly hfresh _ =>
      intro p hp hsame
      have hold : s.Holds p := by
        rcases hp with hpending | hmem | hcall
        · exact .inl hpending
        · rw [show Watching.fresh w = [] from hfresh] at hmem
          cases hmem
        · exact .inr (.inr hcall)
      refine names_of_applyVersion happly (fun hfid => hcalm ?_) (h p hold hsame)
      exact ⟨input, notice, notices, requests, entry, l, p, rfl, hw, happly, hold, hsame, hfid⟩
  | @found _ request hfresh _ _ =>
      intro p hp hsame
      rcases hp with hpending | hmem | hcall
      · exact h p (.inl hpending) hsame
      · rw [show Watching.fresh w = _ from hfresh] at hmem
        rcases List.mem_append.mp hmem with hold | hnew
        · exact h p (.inr (.inl hold)) hsame
        · obtain rfl := List.mem_singleton.mp hnew
          exact names_fileRequest hsame
      · exact h p (.inr (.inr hcall)) hsame
  | @filed _ fresh hw hfresh _ =>
      refine h.keep rfl fun p hp => ?_
      rcases hp with ⟨id, hlookup⟩ | hmem | hcall
      · rcases mem_of_fileAll hlookup with hmem | hold
        · refine .inr (.inl ?_)
          rw [hw]
          exact hmem
        · exact .inl ⟨id, hold⟩
      · rw [show Watching.fresh w = [] from hfresh] at hmem
        cases hmem
      · exact .inr (.inr hcall)
  | showed hfresh hfresh' _ =>
      refine h.keep rfl fun p hp => ?_
      rcases hp with hpending | hmem | hcall
      · exact .inl hpending
      · exact .inr (.inl (by rw [hfresh]; exact hfresh' ▸ hmem))
      · exact .inr (.inr hcall)

-- What the calls hold after one of them went on.
theorem holds_set {index : Nat} {d' : Deciding} {st : AppState}
    (hpending : ∀ id p, st.approvals.pending.lookup id = some p →
      s.state.approvals.pending.lookup id = some p)
    (hholding : ∀ p, d'.stage.progress = .holding p → s.Holds p) :
    Desk.Holds ⟨s.watcher, ⟨st, s.calls.threads.set index d'⟩⟩ p → s.Holds p := by
  rintro (⟨id, hlookup⟩ | hmem | ⟨c, hc, hprogress⟩)
  · exact .inl ⟨id, hpending id p hlookup⟩
  · exact .inr (.inl hmem)
  · rcases List.mem_or_eq_of_mem_set hc with hold | rfl
    · exact .inr (.inr ⟨c, hold, hprogress⟩)
    · exact hholding p hprogress

theorem moved_fresh {index : Nat} {d d' : Deciding} {out : List DeskEvent} {st : AppState}
    (h : s.Fresh) (hd : s.calls.threads[index]? = some d) (hmove : Moved d s.state out d' st) :
    Desk.Fresh ⟨s.watcher, ⟨st, s.calls.threads.set index d'⟩⟩ := by
  have hmem := List.mem_of_getElem? hd
  have hheld : ∀ p, d.stage.progress = .holding p → s.Holds p :=
    fun p hp => .inr (.inr ⟨d, hmem, hp⟩)
  cases hmove with
  | took _ hp hprogress _ =>
      refine h.keep rfl fun q => holds_set (fun _ _ h => h) fun q hq => ?_
      obtain rfl := Progress.holding.inj (hprogress.symm.trans hq)
      exact .inl ⟨_, hp⟩
  | worked hprogress hprogress' _ hfiles _ =>
      refine h.keep hfiles fun q => holds_set (fun _ _ h => h) fun q hq => ?_
      rcases hprogress' with hsame | hclosed
      · obtain rfl := Progress.holding.inj (hsame.symm.trans hq)
        exact hheld _ hprogress
      · rw [hclosed] at hq
        cases hq
  | recorded _ hprogress' _ hfiles =>
      refine h.keep hfiles fun q => holds_set (fun _ _ h => h) fun q hq => ?_
      rw [hprogress'] at hq
      cases hq
  | removed _ hprogress' _ =>
      refine h.keep rfl fun q => holds_set (fun _ _ h => lookup_remove h) fun q hq => ?_
      rw [hprogress'] at hq
      cases hq
  | settled _ hprogress' _ hpending =>
      refine h.keep rfl fun q => holds_set (fun _ _ h => hpending ▸ h) fun q hq => ?_
      rw [hprogress'] at hq
      cases hq
  | missed _ hprogress' _ | delivered _ hprogress' _ _ | lost _ hprogress' _ _ _ _ =>
      refine h.keep rfl fun q => holds_set (fun _ _ h => h) fun q hq => ?_
      rw [hprogress'] at hq
      cases hq

theorem turned_fresh {a : DeskTurn} {out : List DeskEvent} (h : s.Fresh) (ht : Turned s a out s')
    (hcalm : ¬Supersedes ⟨s, a, out, s'⟩) : s'.Fresh := by
  cases ht with
  | watched hw => exact watched_fresh h hw hcalm
  | called call =>
      refine h.keep rfl fun p hp => ?_
      rcases hp with hpending | hmem | ⟨d, hd, hprogress⟩
      · exact .inl hpending
      · exact .inr (.inl hmem)
      · rcases List.mem_append.mp hd with hold | hnew
        · exact .inr (.inr ⟨d, hold, hprogress⟩)
        · rw [List.mem_singleton.mp hnew] at hprogress
          cases hprogress
  | moved hd hmove => exact moved_fresh h hd hmove
  | idle index => exact h

theorem turned_names {a : DeskTurn} {out : List DeskEvent} (h : s.Fresh) (ht : Turned s a out s')
    {e : DeskEvent} (he : e ∈ out) {terms : AccessGrantTerms} (hterms : e.terms = some terms) :
    s.state.ledger.Names terms.fileId terms.headerHash := by
  cases ht with
  | watched hw =>
      cases hw with
      | showed =>
          obtain rfl := List.mem_singleton.mp he
          cases hterms
      | quiet | advanced | found | filed => cases he
  | moved hd hmove =>
      obtain ⟨p, hprogress, habout⟩ := moved_about hmove he
      obtain ⟨hfile, hhash, hsame⟩ := habout.terms terms hterms
      rw [hfile, hhash]
      exact h p (.inr (.inr ⟨_, List.mem_of_getElem? hd, hprogress⟩)) hsame
  | called | idle => cases he

end

-- In every run in which no notice overtakes a request that is held, whatever is signed, submitted
-- or sent names the version that is on record then.
theorem issued_names_recorded {L : Libraries} (machine : OwnerMachine L) (l : Ledger)
    (editSupported : Bool) (turns : List DeskTurn)
    (hcalm : ∀ x ∈ trace (Desk.turn machine) turns (.start l editSupported), ¬Supersedes x) :
    ∀ x ∈ trace (Desk.turn machine) turns (.start l editSupported), ∀ e ∈ x.output,
      ∀ terms, e.terms = some terms →
        x.before.state.ledger.Names terms.fileId terms.headerHash := by
  have hinv := @trace_induct_along _ _ _ (Desk.turn machine) (fun _ x => ¬Supersedes x)
    (fun log s => s.Fresh ∧ ∀ x ∈ log, ∀ e ∈ x.output, ∀ terms, e.terms = some terms →
      x.before.state.ledger.Names terms.fileId terms.headerHash)
    (.start l editSupported) ?_ ?_ turns ?_
  · exact hinv.2
  · refine ⟨?_, by simp⟩
    rintro p (⟨id, hp⟩ | hp | ⟨d, hd, -⟩)
    · simp [Desk.state, Desk.start, Approvals.start] at hp
    · cases hp
    · cases hd
  · rintro log s a ⟨hfresh, hlog⟩ hok
    refine ⟨turned_fresh hfresh (s.turn_turned machine a) hok, fun x hx e he terms hterms => ?_⟩
    rcases List.mem_append.mp hx with hold | hnew
    · exact hlog x hold e he terms hterms
    · obtain rfl := List.mem_singleton.mp hnew
      exact turned_names hfresh (s.turn_turned machine a) he hterms
  · intro pre x post hsplit
    exact hcalm x (by rw [hsplit]; simp)

section Signing

variable {L : Libraries} {machine : OwnerMachine L} {s : Desk}

-- A read of the inbox that brings a notice, up to its taking.
theorem notice_arrives (hsleep : s.watcher = .sleeping) {input : WatchInput}
    {envelope : Proto.Envelope} (hinbox : input.inbox = some [envelope]) {notice : VersionMsg}
    (haccept : acceptVersion L envelope machine.account input.now = some notice) {entry : Entry}
    {l : Ledger} (happly : applyVersion input.notice notice s.state.ledger = (.ok entry, l))
    (hlink : input.notice.link = none) :
    ∃ w, final (Desk.turn machine) (List.replicate 2 (.watch input)) s =
      ⟨w, ⟨{ s.state with ledger := l }, s.calls.threads⟩⟩ := by
  obtain ⟨watcher, ⟨st, threads⟩⟩ := s
  obtain rfl : watcher = .sleeping := hsleep
  simp only [Desk.state] at happly
  simp only [List.replicate, final, Desk.turn, Watching.run, Desk.state, hinbox, haccept,
    List.filterMap_cons, happly, hlink, Option.filter_none, Desk.mk.injEq, exists_eq_left']

-- A tap on a request that was for the version on record when it came: its terms get signed.
theorem tap_signs (hidle : s.calls.threads = []) {call : DecideCall} (hready : call.ready = .ok ())
    (hallow : call.decision ≠ .deny) {p : PendingRequest}
    (hp : s.state.approvals.pending.lookup call.id = some p) (hsame : p.sameVersion = true)
    (hlink : call.env.link = none) (hnonce : call.env.nonceIo = .sound)
    {sig : Bytes} (hsign : ∀ digest how, call.env.sign digest how = .ok sig) :
    ∃ terms, TermsOf p terms ∧ ∃ x ∈ trace (Desk.turn machine)
        (.call (.start call) :: List.replicate 3 (.call (.resume 0 ())) ++ [.call (.resume 0 ())]) s,
      x.before.state.ledger.files = s.state.ledger.files ∧
      x.output = [.signed call.id p.request terms] := by
  obtain ⟨watcher, ⟨st, threads⟩⟩ := s
  obtain rfl : threads = [] := hidle
  obtain ⟨request, entry, hfid⟩ := p
  cases entry with
  | none => cases hsame
  | some entry =>
      have hversion : entry.headerHash = hexEncode request.headerHash.bytes := of_decide_eq_true hsame
      let env := { call.env with recent := st.approvals.recent }
      let a : Allowing := ⟨⟨request, some entry, hfid⟩, entry, st.ledger.grantNonce, rfl, hversion⟩
      let l : Ledger := { st.ledger with grantNonce := st.ledger.grantNonce + 1 }
      have htake : takeNonce env st.ledger = (.ok st.ledger.grantNonce, l) := by
        simp [takeNonce, AnswerEnv.onChain, env, hlink, Ledger.nextGrantNonce, Ledger.update, hnonce,
          LedgerIo.sound, l]
      have hsmart : env.smart = false := by simp [AnswerEnv.smart, env, hlink]
      have hwill : ∀ digest how, env.sign digest how = .ok sig := hsign
      have hlookup : st.approvals.pending.lookup call.id = some ⟨request, some entry, hfid⟩ := hp
      refine ⟨a.terms L { call with env := env }, a.termsOf _, ?_⟩
      have hfinal : final (Desk.turn machine)
          (.call (.start call) :: List.replicate 3 (.call (.resume 0 ()))) ⟨watcher, ⟨st, []⟩⟩ =
            ⟨watcher, ⟨{ st with ledger := l }, [⟨{ call with env := env }, .signing a⟩]⟩⟩ := by
        simp [final, List.replicate, Desk.turn, Threads.turn, Deciding.called, Deciding.run, hlookup,
          hready, Deciding.goTo, Deciding.begin, hallow, PendingRequest.current, hversion, htake, env, a]
      refine ⟨_, taken_mem_trace _ _ [] _, ?_, ?_⟩
      · rw [hfinal]
        rfl
      · rw [hfinal]
        simp [taken, Desk.turn, Threads.turn, Deciding.run, Deciding.sign, hsmart, hwill, a]

end Signing

section Quiet

variable {L : Libraries} {machine : OwnerMachine L} {s : Desk}

-- The notices of this read that are still to be taken.
def Watching.notices : Watching → List VersionMsg
  | .noticing notices _ | .anchoring _ _ notices _ => notices
  | _ => []

theorem notices_turn (h : s.watcher.notices = []) {a : DeskTurn}
    (hinbox : ∀ input, a = .watch input → ∀ envelopes, input.inbox = some envelopes →
      ∀ e ∈ envelopes, acceptVersion L e machine.account input.now = none) :
    (s.turn machine a).2.watcher.notices = [] := by
  obtain ⟨watcher, calls⟩ := s
  cases a with
  | call t => exact h
  | watch input =>
      cases watcher with
      | sleeping =>
          simp only [Desk.turn, Watching.run]
          cases hread : input.inbox with
          | none => rfl
          | some envelopes => exact List.filterMap_eq_nil_iff.mpr (hinbox input rfl envelopes hread)
      | noticing notices requests =>
          obtain rfl : notices = [] := h
          rfl
      | anchoring link notice notices requests => exact h
      | finding requests fresh => cases requests <;> rfl
      | filing fresh => rfl
      | showing arrived => cases arrived <;> rfl

-- Without a notice nothing is overtaken.
theorem not_supersedes {turns : List DeskTurn} (h : s.watcher.notices = [])
    (hinbox : ∀ input, .watch input ∈ turns → ∀ envelopes, input.inbox = some envelopes →
      ∀ e ∈ envelopes, acceptVersion L e machine.account input.now = none) :
    ∀ x ∈ trace (Desk.turn machine) turns s, ¬Supersedes x := by
  induction turns generalizing s with
  | nil => simp [trace]
  | cons a turns ih =>
      intro x hx
      rcases List.mem_cons.mp hx with rfl | hrest
      · rintro ⟨input, notice, notices, requests, entry, l, p, -, hwatcher, -⟩
        rw [show s.watcher = _ from hwatcher] at h
        cases h
      · refine ih (notices_turn h fun input ha => hinbox input ?_)
          (fun input hmem => hinbox input (List.mem_cons_of_mem _ hmem)) x hrest
        exact ha ▸ List.mem_cons_self

end Quiet

namespace Reference

def signing : List DeskTurn :=
  .call (.start (tap .readOnly)) :: List.replicate 3 (.call (.resume 0 ())) ++ [.call (.resume 0 ())]

-- The file is on record and was allowed to be edited before; a request for it has come and waits.
structure Waits (st : OwnerState) (h : Header) (headerHash : HeaderHash) (envelope : Proto.Envelope)
    (p : PendingRequest) : Prop where
  reached : ∃ actions, run (OwnerState.step ownerMachine) actions .start = some st
  approved : ∃ terms grant, Approved .edit h headerHash .defaultPolicy terms grant st
  accepted : acceptRequest libraries envelope [0x01, 0x02] 100 = some p.request
  version : p.request.fid = h.body.fid ∧ p.request.headerHash = headerHash
  sameVersion : p.sameVersion = true
  id : p.id = hexEncode nonce.bytes
  filed : final (Desk.turn ownerMachine) (List.replicate 7 (.watch (watching 100 envelope)))
      (.start st.ledger true) = ⟨.sleeping, ⟨⟨st.ledger, (Approvals.start true).insert p⟩, []⟩⟩

theorem request_waits : ∃ st h headerHash envelope p, Waits st h headerHash envelope p := by
  obtain ⟨h, out, headerBytes, frames, -, s⟩ := container_sealed .defaultPolicy
  obtain ⟨actions, st, terms, grant, hrun, happroved⟩ :=
    run_approved s (show DecisionArg.edit ≠ _ by decide)
  let target : Target := ⟨h.body.fid, libraries.sha256 headerBytes, [0x01, 0x02]⟩
  let request := buildRequest libraries target device .edit nonce 100
  obtain ⟨envelope, haccept⟩ := acceptRequest_signed device (show target.owner = _ from rfl)
  have hsame : (fileRequest .sound request st.ledger).sameVersion = true := by
    simp only [PendingRequest.sameVersion, fileRequest, Ledger.find, LedgerIo.sound, if_true]
    rw [show st.ledger.files.lookup (hexEncode request.fid.bytes) = _ from happroved.file]
    exact decide_eq_true rfl
  obtain ⟨-, hfiled⟩ := @arrives_new libraries ownerMachine (.start st.ledger true)
    (watching 100 envelope) envelope request rfl rfl haccept rfl
  exact ⟨st, h, _, envelope, fileRequest .sound request st.ledger,
    { reached := ⟨actions, hrun⟩
      approved := ⟨terms, grant, happroved⟩
      accepted := haccept
      version := ⟨rfl, rfl⟩
      sameVersion := hsame
      id := rfl
      filed := hfiled }⟩

-- A tap on it, with whatever happened to the record since it came.
theorem Waits.signs {st : OwnerState} {h : Header} {headerHash : HeaderHash}
    {envelope : Proto.Envelope} {p : PendingRequest} (hw : Waits st h headerHash envelope p)
    (w : Watching) (l : Ledger) :
    ∃ terms, TermsOf p terms ∧ ∃ x ∈ trace (Desk.turn ownerMachine) signing
        ⟨w, ⟨⟨l, (Approvals.start true).insert p⟩, []⟩⟩,
      x.before.state.ledger.files = l.files ∧
      x.output = [.signed (hexEncode nonce.bytes) p.request terms] := by
  refine @tap_signs libraries ownerMachine _ rfl (tap .readOnly) rfl (by decide) p ?_ hw.sameVersion
    rfl rfl [0] (fun _ _ => rfl)
  rw [show (tap .readOnly).id = p.id from hw.id.symm]
  exact AList.lookup_insert _

-- The request comes, and is allowed.
theorem signed_recorded : ∃ (turns : List DeskTurn) (l : Ledger),
    (∀ x ∈ trace (Desk.turn ownerMachine) turns (.start l true), ¬Supersedes x) ∧
    ∃ x ∈ trace (Desk.turn ownerMachine) turns (.start l true), ∃ e ∈ x.output, ∃ terms,
      e.terms = some terms ∧ x.before.state.ledger.Names terms.fileId terms.headerHash := by
  obtain ⟨st, h, headerHash, envelope, p, hw⟩ := request_waits
  obtain ⟨terms, hterms, x, hx, -, hout⟩ := hw.signs .sleeping st.ledger
  have hmem : x ∈ trace (Desk.turn ownerMachine)
      (List.replicate 7 (.watch (watching 100 envelope)) ++ signing) (.start st.ledger true) := by
    rw [trace_append, hw.filed]
    exact List.mem_append_right _ hx
  have hcalm : ∀ x ∈ trace (Desk.turn ownerMachine)
      (List.replicate 7 (.watch (watching 100 envelope)) ++ signing) (.start st.ledger true),
      ¬Supersedes x := by
    refine not_supersedes rfl fun input hinput envelopes hread e he => ?_
    obtain rfl : input = watching 100 envelope := by
      simpa [signing] using hinput
    obtain rfl := List.mem_singleton.mp (Option.some.inj hread ▸ he)
    exact acceptVersion_of_request hw.accepted
  have hevent : DeskEvent.signed (hexEncode nonce.bytes) p.request terms ∈ x.output := by
    rw [hout]
    exact List.mem_singleton_self _
  exact ⟨_, st.ledger, hcalm, x, hmem, _, hevent, terms, rfl,
    issued_names_recorded ownerMachine st.ledger true _ hcalm x hmem _ hevent terms rfl⟩

-- The request waits, the editor announces a version, and then the owner taps.
theorem signed_superseded : ∃ (actions : List OwnerAction) (st : OwnerState) (turns : List DeskTurn)
    (x : DeskStep) (e : DeskEvent) (terms : AccessGrantTerms),
    run (OwnerState.step ownerMachine) actions .start = some st ∧
    x ∈ trace (Desk.turn ownerMachine) turns (.start st.ledger true) ∧ e ∈ x.output ∧
    e.terms = some terms ∧ ¬x.before.state.ledger.Names terms.fileId terms.headerHash := by
  obtain ⟨st, h, headerHash, envelope, p, hw⟩ := request_waits
  obtain ⟨actions, hrun⟩ := hw.reached
  obtain ⟨terms₀, grant, happroved⟩ := hw.approved
  obtain ⟨next, hnext⟩ : ∃ next : HeaderHash, headerHash ≠ next := by
    by_cases hsevens : headerHash = .replicate 32 0x77
    · exact ⟨.replicate 32 0x78, by rw [hsevens]; decide⟩
    · exact ⟨.replicate 32 0x77, hsevens⟩
  let notice := { noticeOf h headerHash terms₀ [] device with headerHash := next }
  obtain ⟨envelope', haccept⟩ := acceptVersion_signed device (show notice.ed25519Pub = _ from rfl)
    (show 2 + 0 ≤ 1000 by decide) (show isFresh 5000 5000 = true by decide)
  let entry : Entry := { Entry.fromSeal h.body.fid headerHash "a.txt" sealed .defaultPolicy 50 with
    headerHash := hexEncode next.bytes, ver := 2, ownerEnvelope := some [] }
  have happly : applyVersion noticing notice st.ledger = (.ok entry, st.ledger.putFile entry) :=
    applyVersion_eq_ok.mpr ⟨⟨grant, happroved.recorded, happroved.fid⟩,
      Ledger.advanceVersion_eq_ok.mpr ⟨rfl, _, happroved.file, rfl, rfl, rfl, rfl⟩⟩
  obtain ⟨w, hnoticed⟩ := @notice_arrives libraries ownerMachine
    ⟨.sleeping, ⟨⟨st.ledger, (Approvals.start true).insert p⟩, []⟩⟩ rfl (watching 5000 envelope')
    envelope' rfl notice haccept entry _ happly rfl
  obtain ⟨terms, hterms, x, hx, hfiles, hout⟩ := hw.signs w (st.ledger.putFile entry)
  refine ⟨actions, st, List.replicate 7 (.watch (watching 100 envelope)) ++
    (List.replicate 2 (.watch (watching 5000 envelope')) ++ signing), x,
    .signed (hexEncode nonce.bytes) p.request terms, terms, hrun, ?_, ?_, rfl, ?_⟩
  · rw [trace_append, hw.filed, trace_append, hnoticed]
    exact List.mem_append_right _ (List.mem_append_right _ hx)
  · rw [hout]
    exact List.mem_singleton_self _
  · rintro ⟨e, he, hhash⟩
    rw [hfiles, hterms.fileId, hw.version.1, show hexEncode h.body.fid.bytes = entry.fid from rfl,
      Ledger.putFile, AList.lookup_insert] at he
    obtain rfl := Option.some.inj he
    rw [hterms.headerHash, hw.version.2] at hhash
    exact hnext (FixedBytes.ext (hexEncode_injective hhash)).symm

end Reference

end Zbacs.Agent
