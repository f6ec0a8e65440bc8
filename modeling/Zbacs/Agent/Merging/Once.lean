import Zbacs.Agent.Merging
import Zbacs.Lib.Pieces

namespace Zbacs.Agent

open Zbacs.Lib Zbacs.Core

-- Whether every event of this machine's files gets into the record, and once.

namespace Blocks

variable {b : Blocks} {first middle last : Nat}

theorem length_push_le (block : List Contracts.Receipt) : b.list.length ≤ (b.push block).list.length := by
  unfold push
  split_ifs <;> simp

theorem events_eq_slice :
    b.events first last = (slice first last b.list).flatMap (·.filterMap ChainEvent.ofReceipt) := rfl

-- A new block leaves those before it alone.
theorem events_push (block : List Contracts.Receipt) (h : last ≤ b.list.length) :
    (b.push block).events first last = b.events first last := by
  unfold push
  split_ifs
  · rw [events_eq_slice, slice_append_left _ h, events_eq_slice]
  · rfl

theorem events_append (h₁ : first ≤ middle) (h₂ : middle ≤ last) :
    b.events first last = b.events first middle ++ b.events middle last := by
  rw [events_eq_slice, slice_append h₁ h₂, List.flatMap_append, events_eq_slice, events_eq_slice]

theorem head_lt (b : Blocks) : b.head < b.list.length :=
  Nat.sub_one_lt (List.length_pos_iff.mpr b.nonempty).ne'

theorem head_add_one (b : Blocks) : b.head + 1 = b.list.length :=
  Nat.succ_pred_eq_of_pos (List.length_pos_iff.mpr b.nonempty)

end Blocks

-- About a file of this machine's.
def Own (l : Ledger) (e : ChainEvent) : Prop := (l.files.lookup (hexEncode e.fileId.bytes)).isSome = true

instance (l : Ledger) (e : ChainEvent) : Decidable (Own l e) :=
  inferInstanceAs (Decidable ((l.files.lookup (hexEncode e.fileId.bytes)).isSome = true))

def ownEvents (l : Ledger) (events : List ChainEvent) : List ChainEvent := events.filter fun e => Own l e

-- What the other operations do to the cursor, and to which files are on record.
theorem Ledger.Does.chainCursor {op : LedgerOp} {out : LedgerOut} {l l' : Ledger} (h : Does op l out l')
    (hop : ∀ next, op ≠ .setChainCursor next) : l'.chainCursor = l.chainCursor := by
  cases h with
  | merged next => exact absurd rfl (hop next)
  | _ => rfl

theorem own_putFile {l : Ledger} {entry : Entry} {e : ChainEvent} :
    Own (l.putFile entry) e ↔ hexEncode e.fileId.bytes = entry.fid ∨ Own l e := by
  rw [Own, Ledger.lookup_putFile, Own]
  split_ifs with hkey <;> simp [hkey]

theorem Ledger.Does.own {op : LedgerOp} {out : LedgerOut} {l l' : Ledger} {e : ChainEvent}
    (h : Does op l out l') :
    Own l' e ↔ (∃ entry, op = .record entry ∧ hexEncode e.fileId.bytes = entry.fid) ∨ Own l e := by
  have hagain : ∀ {key old}, l.files.lookup key = some old → hexEncode e.fileId.bytes = old.fid →
      Own l e := by
    intro key old hold hkey
    rw [Own, hkey, l.fileKeyed key old hold, hold]
    rfl
  cases h with
  | recorded entry => simp [own_putFile]
  | advanced hold hver =>
      rw [own_putFile]
      simpa using hagain hold
  | registered hold =>
      rw [own_putFile]
      simpa using hagain hold
  | granted | revoked | merged | deferred | cleared | numbered => simp [Own, putGrant]

-- What a line of the record says of an event, besides the time and the file's name.
abbrev AuditLine := Audit.Kind × String × Option String

def ChainEvent.line (e : ChainEvent) : AuditLine := (e.kind, hexEncode e.fileId.bytes, e.detail)

def chainLines (audit : List Audit.Entry) : List AuditLine :=
  (audit.filter fun entry => entry.source = .chain).map fun entry => (entry.kind, entry.fid, entry.detail)

theorem chainLines_append (audit audit' : List Audit.Entry) :
    chainLines (audit ++ audit') = chainLines audit ++ chainLines audit' := by
  rw [chainLines, List.filter_append, List.map_append, ← chainLines, ← chainLines]

namespace Merging

-- With the cursor at the end of the chain and no call under way, the lines from the chain are the
-- events of this machine's files since the first look, each once and in their order.
def MergedOnce (s : Merging) : Prop :=
  ∀ first next, s.task = .idle → s.firstLook = some first → s.ledger.chainCursor = some next →
    next.toNat = s.blocks.list.length →
      chainLines s.audit =
        (ownEvents s.ledger (s.blocks.events first s.blocks.list.length)).map ChainEvent.line

-- The events up to the stored cursor.
def stored (s : Merging) : List ChainEvent :=
  match s.ledger.chainCursor with
  | none => []
  | some next => s.blocks.events (s.firstLook.getD 0) next.toNat

-- The events the call has behind it.
def passed (s : Merging) : List ChainEvent :=
  match s.task with
  | .idle | .looking => s.stored
  | .polling next | .saving next _ => s.blocks.events (s.firstLook.getD 0) next
  | .noting next events _ =>
      let all := s.blocks.events (s.firstLook.getD 0) next
      all.take (all.length - events.length)

-- What the record needs of one step.
def Careful (s : Merging) : MergeTurn → Prop
  -- a look from the newest block (nothing is stored, or the ledger cannot be read) starts where the
  -- stored cursor would have it start, as far as this machine's files go
  | .look true => s.task = .looking →
      ownEvents s.ledger (s.blocks.events (s.firstLook.getD 0) s.blocks.head) = ownEvents s.ledger s.stored
  -- an event of this machine's is found to be one, and its line is written
  | .note io _ appends => ∀ next e rest added, s.task = .noting next (e :: rest) added →
      Own s.ledger e → io.loads = true ∧ appends = true
  -- once there are lines, the cursor gets stored
  | .save io => ∀ next added, s.task = .saving next added → io = .sound ∨ added = 0
  | .crash => match s.task with
    | .noting _ _ added | .saving _ added => added = 0
    | _ => True
  -- no file is recorded after events of it have been passed by
  | .elsewhere call => ∀ entry, call = ⟨.sound, .record entry⟩ →
      ∀ e ∈ s.passed ++ s.stored, hexEncode e.fileId.bytes = entry.fid → Own s.ledger e
  | _ => True

-- What a call has behind it is what the stored cursor says.
def Backed (s : Merging) : Prop := ownEvents s.ledger s.passed = ownEvents s.ledger s.stored

-- A block number from the first look on, and no further than the next block.
def Within (s : Merging) (next : Nat) : Prop :=
  s.firstLook.getD 0 ≤ next ∧ next ≤ s.blocks.list.length

-- The record has what was passed, and a call that ends without storing the cursor leaves nothing
-- behind.
structure Sound (s : Merging) : Prop where
  looked : s.task ≠ .idle ∨ s.ledger.chainCursor ≠ none → s.firstLook ≠ none
  first : s.firstLook.getD 0 ≤ s.blocks.head
  cursor : ∀ next, s.ledger.chainCursor = some next → s.Within next.toNat
  lines : chainLines s.audit = (ownEvents s.ledger s.passed).map ChainEvent.line
  task : match s.task with
    | .idle | .looking => True
    | .polling next => s.Within next ∧ s.Backed
    | .noting next events added => s.Within next ∧
        events <:+ s.blocks.events (s.firstLook.getD 0) next ∧ (added = 0 → s.Backed)
    | .saving next added => s.Within next ∧ (added = 0 → s.Backed)

section Step

variable {s : Merging}

theorem sound_begun (blocks : Blocks) : (begun blocks).Sound where
  looked h := by simp [begun, Ledger.empty] at h
  first := Nat.zero_le _
  cursor := by rintro next ⟨⟩
  lines := rfl
  task := trivial

-- A call that ends here is as if it had not been.
theorem Sound.idle (h : s.Sound) (hback : s.Backed) : Sound { s with task := .idle } where
  looked hl := h.looked (hl.imp (fun hn => absurd rfl hn) id)
  first := h.first
  cursor := h.cursor
  lines := h.lines.trans (congrArg _ hback)
  task := trivial

theorem Sound.mined (h : s.Sound) (block : List Contracts.Receipt) :
    Sound { s with blocks := s.blocks.push block } := by
  obtain ⟨blocks, ledger, audit, task, firstLook⟩ := s
  have hgrows := Blocks.length_push_le (b := blocks) block
  have hstored : stored ⟨blocks.push block, ledger, audit, task, firstLook⟩ =
      stored ⟨blocks, ledger, audit, task, firstLook⟩ := by
    unfold stored
    cases hcursor : ledger.chainCursor with
    | none => rfl
    | some next => exact Blocks.events_push block (h.cursor next hcursor).2
  have hpassed : passed ⟨blocks.push block, ledger, audit, task, firstLook⟩ =
      passed ⟨blocks, ledger, audit, task, firstLook⟩ := by
    cases task with
    | idle | looking => exact hstored
    | polling next | saving next added => exact Blocks.events_push block h.task.1.2
    | noting next events added => simp only [passed, Blocks.events_push block h.task.1.2]
  have hbacked : Backed ⟨blocks, ledger, audit, task, firstLook⟩ →
      Backed ⟨blocks.push block, ledger, audit, task, firstLook⟩ := by
    intro hback
    rw [Backed, hpassed, hstored]
    exact hback
  refine ⟨h.looked, h.first.trans (Nat.sub_le_sub_right hgrows 1), fun next hn =>
    ⟨(h.cursor next hn).1, (h.cursor next hn).2.trans hgrows⟩, ?_, ?_⟩
  · rw [hpassed]
    exact h.lines
  · cases task with
    | idle | looking => trivial
    | polling next => exact ⟨⟨h.task.1.1, h.task.1.2.trans hgrows⟩, hbacked h.task.2⟩
    | saving next added =>
        exact ⟨⟨h.task.1.1, h.task.1.2.trans hgrows⟩, fun hadded => hbacked (h.task.2 hadded)⟩
    | noting next events added =>
        refine ⟨⟨h.task.1.1, h.task.1.2.trans hgrows⟩, ?_, fun hadded => hbacked (h.task.2.2 hadded)⟩
        exact (Blocks.events_push block h.task.1.2).symm ▸ h.task.2.1

-- The other tasks record files and leave the cursor.
theorem Sound.elsewhere (h : s.Sound) {l : Ledger} (hcursor : l.chainCursor = s.ledger.chainCursor)
    (hnew : ∀ e ∈ s.passed ++ s.stored, Own l e → Own s.ledger e)
    (hgrows : ∀ e, Own s.ledger e → Own l e) : Sound { s with ledger := l } := by
  obtain ⟨blocks, ledger, audit, task, firstLook⟩ := s
  have hstored : stored ⟨blocks, l, audit, task, firstLook⟩ =
      stored ⟨blocks, ledger, audit, task, firstLook⟩ := by
    simp only [stored, hcursor]
  have hpassed : passed ⟨blocks, l, audit, task, firstLook⟩ =
      passed ⟨blocks, ledger, audit, task, firstLook⟩ := by
    cases task with
    | idle | looking => exact hstored
    | polling | noting | saving => rfl
  have hown : ∀ events ⊆ passed ⟨blocks, ledger, audit, task, firstLook⟩ ++
      stored ⟨blocks, ledger, audit, task, firstLook⟩, ownEvents l events = ownEvents ledger events := by
    intro events hsub
    refine List.filter_congr fun e he => ?_
    exact decide_eq_decide.mpr ⟨hnew e (hsub he), hgrows e⟩
  have hbacked : Backed ⟨blocks, ledger, audit, task, firstLook⟩ →
      Backed ⟨blocks, l, audit, task, firstLook⟩ := by
    intro hback
    rw [Backed, hpassed, hstored]
    exact (hown _ (List.subset_append_left ..)).trans
      (hback.trans (hown _ (List.subset_append_right ..)).symm)
  refine ⟨?_, h.first, ?_, ?_, ?_⟩
  · rw [hcursor]
    exact h.looked
  · rw [hcursor]
    exact h.cursor
  · rw [hpassed]
    exact h.lines.trans (congrArg _ (hown _ (List.subset_append_left ..)).symm)
  · cases task with
    | idle | looking => trivial
    | polling next => exact ⟨h.task.1, hbacked h.task.2⟩
    | saving next added => exact ⟨h.task.1, fun hadded => hbacked (h.task.2 hadded)⟩
    | noting next events added =>
        exact ⟨h.task.1, h.task.2.1, fun hadded => hbacked (h.task.2.2 hadded)⟩

theorem Sound.acted (h : s.Sound) (entry : Audit.Entry) :
    Sound { s with audit := s.audit ++ [{ entry with source := .agent }] } := by
  obtain ⟨blocks, ledger, audit, task, firstLook⟩ := s
  refine ⟨h.looked, h.first, h.cursor, ?_, h.task⟩
  refine Eq.trans ?_ h.lines
  simp [chainLines]

theorem Sound.start (h : s.Sound) (io : LedgerIo) (hidle : s.task = .idle) : (s.start io).Sound := by
  obtain ⟨blocks, ledger, audit, task, firstLook⟩ := s
  cases hidle
  unfold Merging.start
  cases hstored : ledger.storedCursor io with
  | some next =>
      have hcursor : ledger.chainCursor = some next := by
        unfold Ledger.storedCursor at hstored
        split_ifs at hstored
        exact hstored
      have hpassed : passed ⟨blocks, ledger, audit, .polling next.toNat, firstLook⟩ =
          stored ⟨blocks, ledger, audit, .polling next.toNat, firstLook⟩ := by
        simp only [passed, stored, hcursor]
      refine ⟨fun _ => h.looked (.inr (by simp [hcursor])), h.first, h.cursor, ?_, h.cursor next hcursor, ?_⟩
      · rw [hpassed]
        exact h.lines
      · rw [Backed, hpassed]
  | none =>
      cases hfirst : firstLook with
      | some first =>
          subst hfirst
          exact ⟨fun _ => by simp, h.first, h.cursor, h.lines, trivial⟩
      | none =>
          subst hfirst
          -- nothing is stored before the first look
          have hcursor : ledger.chainCursor = none := by
            by_contra hsome
            exact h.looked (.inr hsome) rfl
          refine ⟨fun _ => by simp, le_refl _, fun next hn => ?_, ?_, trivial⟩
          · cases hcursor.symm.trans hn
          · refine h.lines.trans ?_
            simp only [passed, stored, hcursor]

theorem Sound.look (h : s.Sound) (hlooking : s.task = .looking)
    (hstart : ownEvents s.ledger (s.blocks.events (s.firstLook.getD 0) s.blocks.head) =
      ownEvents s.ledger s.stored) :
    Sound { s with task := .polling s.blocks.head } := by
  obtain ⟨blocks, ledger, audit, task, firstLook⟩ := s
  cases hlooking
  refine ⟨fun _ => h.looked (.inl (by simp)), h.first, h.cursor, ?_,
    ⟨h.first, (Blocks.head_lt blocks).le⟩, hstart⟩
  exact h.lines.trans (congrArg _ hstart.symm)

theorem Sound.poll {next : Nat} (h : s.Sound) (hpolling : s.task = .polling next) : (s.poll next).Sound := by
  obtain ⟨blocks, ledger, audit, task, firstLook⟩ := s
  cases hpolling
  obtain ⟨⟨hfirst, hnext⟩, hback⟩ := h.task
  unfold Merging.poll
  split_ifs with hhead
  · exact ⟨fun _ => h.looked (.inl (by simp)), h.first, h.cursor, h.lines, ⟨hfirst, hnext⟩, fun _ => hback⟩
  · have hhead' : next ≤ blocks.head + 1 := by
      dsimp only at hhead
      omega
    -- the batch is what is behind the call with what it has just read
    have hbatch := @Blocks.events_append blocks (firstLook.getD 0) next (blocks.head + 1) hfirst hhead'
    have hpassed : passed ⟨blocks, ledger, audit, .noting (blocks.head + 1)
        (blocks.events next (blocks.head + 1)) 0, firstLook⟩ =
        passed ⟨blocks, ledger, audit, .polling next, firstLook⟩ := by
      simp only [passed, hbatch, List.length_append, Nat.add_sub_cancel_right, List.take_left]
    refine ⟨fun _ => h.looked (.inl (by simp)), h.first, h.cursor, ?_,
      ⟨hfirst.trans hhead', (Blocks.head_add_one blocks).le⟩, ?_, fun _ => ?_⟩
    · rw [hpassed]
      exact h.lines
    · dsimp only
      rw [hbatch]
      exact List.suffix_append ..
    · rw [Backed, hpassed]
      exact hback

theorem Sound.noted {next added : Nat} (h : s.Sound) (hnoting : s.task = .noting next [] added) :
    Sound { s with task := .saving next added } := by
  obtain ⟨blocks, ledger, audit, task, firstLook⟩ := s
  cases hnoting
  have hpassed : passed ⟨blocks, ledger, audit, .noting next [] added, firstLook⟩ =
      passed ⟨blocks, ledger, audit, .saving next added, firstLook⟩ := by
    simp [passed]
  refine ⟨fun _ => h.looked (.inl (by simp)), h.first, h.cursor, ?_, h.task.1, fun hadded => ?_⟩
  · rw [← hpassed]
    exact h.lines
  · rw [Backed, ← hpassed]
    exact h.task.2.2 hadded

-- One more event is behind the call.
theorem passed_note {blocks : Blocks} {ledger : Ledger} {audit audit' : List Audit.Entry}
    {firstLook : Option Nat} {next added added' : Nat} {e : ChainEvent} {rest : List ChainEvent}
    (h : e :: rest <:+ blocks.events (firstLook.getD 0) next) :
    passed ⟨blocks, ledger, audit', .noting next rest added', firstLook⟩ =
      passed ⟨blocks, ledger, audit, .noting next (e :: rest) added, firstLook⟩ ++ [e] := by
  obtain ⟨done, hdone⟩ := h
  simp only [passed, ← hdone, List.length_append, List.length_cons]
  have hlength : done.length + (rest.length + 1) - rest.length = done.length + 1 := by omega
  have hsplit : done ++ e :: rest = (done ++ [e]) ++ rest := by simp
  rw [hlength, Nat.add_sub_cancel_right, List.take_left, hsplit]
  exact List.take_left' (by simp)

theorem Sound.note (h : s.Sound) {io : LedgerIo} {now : UInt64} {appends : Bool} {next added : Nat}
    {e : ChainEvent} {rest : List ChainEvent} (hnoting : s.task = .noting next (e :: rest) added)
    (hcareful : Own s.ledger e → io.loads = true ∧ appends = true) :
    (s.note io now appends next e rest added).Sound := by
  obtain ⟨blocks, ledger, audit, task, firstLook⟩ := s
  cases hnoting
  obtain ⟨hwithin, hsuffix, hback⟩ := h.task
  have hrest : rest <:+ blocks.events (firstLook.getD 0) next := (List.suffix_cons e rest).trans hsuffix
  unfold Merging.note
  cases hfind : ledger.find io e.fileId with
  | none =>
      have hother : ¬ Own ledger e := by
        intro hown
        rw [Ledger.find, if_pos (hcareful hown).1] at hfind
        rw [Own, hfind] at hown
        cases hown
      have hsame : ∀ events, ownEvents ledger (events ++ [e]) = ownEvents ledger events := by
        intro events
        rw [ownEvents, List.filter_append, List.filter_cons_of_neg (by simpa using hother),
          List.filter_nil, List.append_nil, ownEvents]
      refine ⟨fun _ => h.looked (.inl (by simp)), h.first, h.cursor, ?_, hwithin, hrest, fun hadded => ?_⟩
      · dsimp only
        rw [passed_note hsuffix, hsame]
        exact h.lines
      · rw [Backed, passed_note hsuffix, hsame]
        exact hback hadded
  | some entry =>
      have hown : Own ledger e := by
        unfold Ledger.find at hfind
        split_ifs at hfind
        rw [Own, hfind]
        rfl
      refine ⟨fun _ => h.looked (.inl (by simp)), h.first, h.cursor, ?_, hwithin, hrest,
        fun hadded => absurd hadded (Nat.succ_ne_zero added)⟩
      dsimp only
      rw [passed_note hsuffix, if_pos (hcareful hown).2, chainLines_append, ownEvents, List.filter_append,
        List.map_append]
      have hline : chainLines [e.entry now entry.name] = [e.line] := rfl
      have hmore : [e].filter (fun e => decide (Own ledger e)) = [e] :=
        List.filter_cons_of_pos (by simpa using hown)
      rw [hline, hmore]
      exact congrArg (· ++ [e.line]) h.lines

theorem Sound.save (h : s.Sound) {io : LedgerIo} {next added : Nat} (hsaving : s.task = .saving next added)
    (hcareful : io = .sound ∨ added = 0) : (s.save io next added).2.Sound := by
  obtain ⟨blocks, ledger, audit, task, firstLook⟩ := s
  cases hsaving
  obtain ⟨hwithin, hback⟩ := h.task
  unfold Merging.save
  cases hset : ledger.setChainCursor io (UInt64.ofNat next) with
  | mk answer l =>
  cases answer with
  | error e =>
      obtain rfl := Ledger.update_keeps hset
      have hadded : added = 0 := by
        refine hcareful.resolve_left ?_
        rintro rfl
        cases hset
      exact h.idle (hback hadded)
  | ok out =>
      obtain ⟨-, hchange⟩ := Ledger.update_eq_ok.mp hset
      cases hchange
      have hnext : (UInt64.ofNat next).toNat = next :=
        UInt64.toNat_ofNat_of_lt' (hwithin.2.trans_lt blocks.bounded)
      have hlooked : firstLook ≠ none := h.looked (.inl (by simp))
      refine ⟨fun _ => hlooked, h.first, fun next' hn => ?_, ?_, trivial⟩
      · cases hn
        rw [Within, hnext]
        exact hwithin
      · refine h.lines.trans ?_
        simp only [passed, stored, hnext]
        rfl

-- A call to the ledger by another task.
theorem Sound.turned (h : s.Sound) {call : LedgerCall} (hop : ∀ next, call.op ≠ .setChainCursor next)
    (hcareful : s.Careful (.elsewhere call)) : Sound { s with ledger := (s.ledger.step call).2 } := by
  obtain ⟨e, hfails⟩ | ⟨out, l, hio, hdoes, hgoes⟩ := Ledger.step_cases s.ledger call
  · rw [hfails]
    exact h
  · obtain ⟨io, op⟩ := call
    cases hio
    rw [hgoes]
    have hown : ∀ e, Own l e ↔ _ := fun _ => hdoes.own
    refine h.elsewhere (hdoes.chainCursor hop) (fun e he hl => ?_) fun e he => (hown e).mpr (.inr he)
    obtain ⟨entry, rfl, hfid⟩ | hl := (hown e).mp hl
    · exact hcareful entry rfl e he hfid
    · exact hl

-- Where a process may end, what is behind its call is stored.
theorem Sound.backed_of_crash (h : s.Sound) (hcareful : s.Careful .crash) : s.Backed := by
  have htask := h.task
  cases hs : s.task with
  | idle | looking => rw [Backed, passed, hs]
  | polling next =>
      rw [hs] at htask
      exact htask.2
  | noting next events added =>
      rw [hs] at htask
      rw [Careful, hs] at hcareful
      exact htask.2.2 hcareful
  | saving next added =>
      rw [hs] at htask
      rw [Careful, hs] at hcareful
      exact htask.2 hcareful

theorem Sound.step {turn : MergeTurn} (h : s.Sound) (hcareful : s.Careful turn) : (s.step turn).2.Sound := by
  cases turn with
  | mined block => exact h.mined block
  | acted entry => exact h.acted entry
  | elsewhere call =>
      rw [Merging.step]
      split
      · exact h
      · exact h.turned ‹_› hcareful
  | start io =>
      rw [Merging.step]
      split
      · exact h.start io ‹_›
      · exact h
  | look up =>
      rw [Merging.step]
      split
      · rename_i hlooking
        cases up with
        | true => exact h.look hlooking (hcareful hlooking)
        | false =>
            refine h.idle ?_
            rw [Backed, passed, hlooking]
      · exact h
  | poll up =>
      rw [Merging.step]
      split
      · rename_i hpolling
        cases up with
        | true => exact h.poll hpolling
        | false =>
            have htask := h.task
            rw [hpolling] at htask
            exact h.idle htask.2
      · exact h
  | note io now appends =>
      rw [Merging.step]
      split
      · exact h.noted ‹_›
      · exact h.note ‹_› (hcareful _ _ _ _ ‹_›)
      · exact h
  | save io =>
      rw [Merging.step]
      split
      · exact h.save ‹_› (hcareful _ _ ‹_›)
      · exact h
  | crash => exact h.idle (h.backed_of_crash hcareful)

theorem Sound.mergedOnce (h : s.Sound) : s.MergedOnce := by
  intro first next hidle hfirst hcursor hnext
  refine h.lines.trans ?_
  rw [passed, hidle, stored]
  simp only [hcursor, hfirst, hnext, Option.getD_some]

end Step

section CaughtUp

-- The cursor is at the end of the chain.
def CaughtUp (s : Merging) : Prop :=
  s.task = .idle ∧ ∃ next, s.ledger.chainCursor = some next ∧ next.toNat = s.blocks.list.length

-- A call that nothing disturbs, with time for `n` events.
def undisturbed (now : UInt64) (n : Nat) : List MergeTurn :=
  [.start .sound, .look true, .poll true] ++ List.replicate n (.note .sound now true) ++ [.save .sound]

variable {s : Merging} {now : UInt64}

theorem final_notes_saving {next added : Nat} (hs : s.task = .saving next added) (n : Nat) :
    final Merging.step (List.replicate n (.note .sound now true)) s = s := by
  induction n with
  | zero => rfl
  | succ n ih =>
      rw [List.replicate_succ, final]
      have hstep : (s.step (.note .sound now true)).2 = s := by
        rw [Merging.step]
        simp only [hs]
      rw [hstep, ih]

-- The events are noted one by one, and the chain and the cursor are where they were.
theorem final_notes {next : Nat} {events : List ChainEvent} {n added : Nat}
    (hs : s.task = .noting next events added) (hn : events.length < n) :
    ∃ audit added', final Merging.step (List.replicate n (.note .sound now true)) s =
      { s with audit := audit, task := .saving next added' } := by
  induction events generalizing s n added with
  | nil =>
      obtain ⟨n, rfl⟩ := Nat.exists_eq_succ_of_ne_zero (Nat.ne_of_gt hn)
      refine ⟨s.audit, added, ?_⟩
      have hstep : (s.step (.note .sound now true)).2 = { s with task := .saving next added } := by
        rw [Merging.step]
        simp only [hs]
      rw [List.replicate_succ, final, hstep]
      exact final_notes_saving rfl n
  | cons e rest ih =>
      obtain ⟨n, rfl⟩ := Nat.exists_eq_succ_of_ne_zero (Nat.ne_of_gt (Nat.zero_lt_of_lt hn))
      have hrest : rest.length < n := Nat.lt_of_succ_lt_succ hn
      have hstep : ∃ audit added', (s.step (.note .sound now true)).2 =
          { s with audit := audit, task := .noting next rest added' } := by
        rw [Merging.step]
        simp only [hs, note]
        split
        · exact ⟨s.audit, added, rfl⟩
        · exact ⟨_, added + 1, rfl⟩
      obtain ⟨audit, added', hnext⟩ := hstep
      obtain ⟨audit', added'', hfinal⟩ :=
        ih (s := { s with audit := audit, task := .noting next rest added' }) rfl hrest
      refine ⟨audit', added'', ?_⟩
      rw [List.replicate_succ, final, hnext, hfinal]

theorem caughtUp_save {next added : Nat} (hs : s.task = .saving next added)
    (hnext : next = s.blocks.list.length) : CaughtUp (s.step (.save .sound)).2 := by
  subst hnext
  rw [Merging.step]
  simp only [hs]
  exact ⟨rfl, _, rfl, UInt64.toNat_ofNat_of_lt' s.blocks.bounded⟩

theorem caughtUp_polling {next n : Nat} (hs : s.task = .polling next) (hnext : next ≤ s.blocks.list.length)
    (hn : (s.blocks.events 0 s.blocks.list.length).length < n) :
    CaughtUp (final Merging.step
      (.poll true :: List.replicate n (.note .sound now true) ++ [.save .sound]) s) := by
  have hlength := s.blocks.head_add_one
  rw [List.cons_append, final, final_append]
  have hpoll : (s.step (.poll true)).2 = s.poll next := by
    rw [Merging.step]
    simp only [hs, if_pos]
  rw [hpoll, Merging.poll]
  split_ifs with hhead
  · rw [final_notes_saving rfl]
    exact caughtUp_save rfl (by dsimp only; omega)
  · have hbatch : (s.blocks.events next (s.blocks.head + 1)).length < n := by
      rw [hlength]
      have hall := @Blocks.events_append s.blocks 0 next s.blocks.list.length (Nat.zero_le _) hnext
      rw [hall, List.length_append] at hn
      omega
    obtain ⟨audit, added, hnotes⟩ := @final_notes
      { s with task := .noting (s.blocks.head + 1) (s.blocks.events next (s.blocks.head + 1)) 0 }
      now _ _ n 0 rfl hbatch
    rw [hnotes]
    exact caughtUp_save rfl hlength

-- One call is enough.
theorem Sound.caughtUp (h : s.Sound) (hidle : s.task = .idle) {n : Nat}
    (hn : (s.blocks.events 0 s.blocks.list.length).length < n) :
    CaughtUp (final Merging.step (undisturbed now n) s) := by
  rw [undisturbed, List.append_assoc, List.cons_append, List.cons_append, final, final]
  have hstart : (s.step (.start .sound)).2 = s.start .sound := by
    rw [Merging.step]
    simp only [hidle]
  rw [hstart, Merging.start]
  cases hcursor : s.ledger.chainCursor with
  | none =>
      have hstored : s.ledger.storedCursor .sound = none := hcursor
      rw [hstored]
      exact caughtUp_polling rfl (Blocks.head_lt s.blocks).le hn
  | some next =>
      have hstored : s.ledger.storedCursor .sound = some next := hcursor
      rw [hstored]
      exact caughtUp_polling rfl (h.cursor next hcursor).2 hn

theorem Sound.final (h : s.Sound) {turns : List MergeTurn}
    (hcareful : ∀ turn ∈ turns, ∀ s : Merging, s.Careful turn) : (final Merging.step turns s).Sound := by
  induction turns generalizing s with
  | nil => exact h
  | cons turn turns ih =>
      obtain ⟨hturn, hturns⟩ := List.forall_mem_cons.mp hcareful
      exact ih (h.step (hturn s)) hturns

-- With a cursor in store there is no look.
theorem Sound.undisturbed (h : s.Sound) (hidle : s.task = .idle) (hcursor : s.ledger.chainCursor ≠ none)
    (n : Nat) : (Lib.final Merging.step (undisturbed now n) s).Sound := by
  obtain ⟨next, hnext⟩ := Option.ne_none_iff_exists'.mp hcursor
  rw [Merging.undisturbed, List.append_assoc, List.cons_append, List.cons_append, Lib.final, Lib.final]
  have hstart : (s.step (.start .sound)).2 = { s with task := .polling next.toNat } := by
    have hstored : s.ledger.storedCursor .sound = some next := hnext
    rw [Merging.step]
    simp only [hidle, Merging.start, hstored]
  have hlook : (({ s with task := .polling next.toNat } : Merging).step (.look true)).2 =
      { s with task := .polling next.toNat } := rfl
  rw [hstart, hlook]
  have hsound : Sound { s with task := .polling next.toNat } := by
    rw [← hstart]
    exact h.step trivial
  refine hsound.final fun turn hturn s' => ?_
  simp only [List.cons_append, List.nil_append, List.mem_cons, List.mem_append, List.mem_replicate,
    List.not_mem_nil, or_false] at hturn
  obtain rfl | ⟨-, rfl⟩ | rfl := hturn
  · trivial
  · exact fun _ _ _ _ _ _ => ⟨rfl, rfl⟩
  · exact fun _ _ _ => .inl rfl

end CaughtUp

-- Steps of that kind keep the record right, whatever fails and wherever the process ends: the file
-- with the cursor and the file with the lines agree whenever no call is under way. One more call
-- then reads the chain to its end, and the record is right there.
theorem merged_once (blocks : Blocks) (turns : List MergeTurn)
    (h : Along (fun _ x => x.before.Careful x.input) (trace Merging.step turns (begun blocks))) :
    (∀ x ∈ trace Merging.step turns (begun blocks), x.after.MergedOnce) ∧
      ∀ s, s = final Merging.step turns (begun blocks) → s.task = .idle → s.ledger.chainCursor ≠ none →
        ∀ now n, (s.blocks.events 0 s.blocks.list.length).length < n →
          (final Merging.step (undisturbed now n) s).CaughtUp ∧
            (final Merging.step (undisturbed now n) s).MergedOnce := by
  have hsound : (final Merging.step turns (begun blocks)).Sound :=
    @trace_induct_along _ _ _ _ _ (fun _ s => s.Sound) _ (sound_begun blocks) (fun _ _ _ hs => hs.step)
      turns h
  have hgood : Along (fun _ x => x.after.MergedOnce) (trace Merging.step turns (begun blocks)) := by
    refine @trace_along _ _ _ _ _ _ (fun _ s => s.Sound) _ (sound_begun blocks) ?_ turns h
    intro _ s turn hs hcareful
    have hnext := hs.step hcareful
    exact ⟨hnext, hnext.mergedOnce⟩
  refine ⟨fun x hx => ?_, ?_⟩
  · obtain ⟨pre, post, hsplit⟩ := List.append_of_mem hx
    exact hgood pre x post hsplit
  · rintro s rfl hidle hcursor now n hn
    exact ⟨hsound.caughtUp hidle hn, (hsound.undisturbed hidle hcursor n).mergedOnce⟩

end Merging

namespace Reference

-- A chain with one block, and a file whose approval comes into the next.
def genesis : Blocks := ⟨[[]], by simp, by simp⟩

def mergedFile : FixedBytes 32 := .replicate 32 1

def mergedEntry : Entry where
  fid := hexEncode mergedFile.bytes
  headerHash := ""
  name := "plan.pdf"
  path := []
  permission := .readOnly
  ttl := 60
  maxOpens := 0
  sealedAt := 90
  ver := 1
  ownerEnvelope := none
  registeredTx := none

def grantedBlock : List Contracts.Receipt :=
  [.policy (.granted (.replicate 32 2) mergedFile (.replicate 32 3) 1 200)]

-- The first call finds nothing.
def emptyMerge : List MergeTurn :=
  [.elsewhere ⟨.sound, .record mergedEntry⟩, .start .sound, .look true, .poll true, .note .sound 100 true,
    .save .sound]

-- A call up to the line for the approval.
def notedMerge (now : UInt64) : List MergeTurn := [.start .sound, .poll true, .note .sound now true]

def calmRun : List MergeTurn :=
  emptyMerge ++ [.mined grantedBlock] ++ notedMerge 110 ++ [.note .sound 110 true, .save .sound]

theorem merged_once_calm : Along (fun _ x => x.before.Careful x.input)
      (trace Merging.step calmRun (Merging.begun genesis)) ∧
    ∀ x ∈ trace Merging.step calmRun (Merging.begun genesis), x.after.MergedOnce := by
  have hcareful : Along (fun _ x => x.before.Careful x.input)
      (trace Merging.step calmRun (Merging.begun genesis)) := by
    refine AlongFrom.along ⟨?_, trivial, ?_, trivial, ?_, ?_, trivial, trivial, trivial, ?_, ?_, ?_, trivial⟩
    -- the file, before any event
    · exact fun _ _ e he => absurd he List.not_mem_nil
    · exact fun _ => rfl
    · exact fun _ _ _ _ _ _ => ⟨rfl, rfl⟩
    · exact fun _ _ _ => .inl rfl
    · exact fun _ _ _ _ _ _ => ⟨rfl, rfl⟩
    · exact fun _ _ _ _ _ _ => ⟨rfl, rfl⟩
    · exact fun _ _ _ => .inl rfl
  exact ⟨hcareful, (Merging.merged_once genesis calmRun hcareful).1⟩

-- The process ends between the line and the cursor, and the next one writes the line again.
def crashedRun : List MergeTurn :=
  emptyMerge ++ [.mined grantedBlock] ++ notedMerge 110 ++ [.crash] ++ notedMerge 120 ++
    [.note .sound 120 true, .save .sound]

theorem not_merged_once : ¬ ∀ blocks turns, ∀ x ∈ trace Merging.step turns (Merging.begun blocks),
    x.after.MergedOnce := by
  intro h
  have hlast := h genesis crashedRun _ (taken_mem_trace (crashedRun.dropLast) (.save .sound) [] _)
  have hlines := hlast 0 2 rfl rfl rfl rfl
  have htwice : (2 : Nat) = 1 := congrArg List.length hlines
  cases htwice

end Reference

end Zbacs.Agent
