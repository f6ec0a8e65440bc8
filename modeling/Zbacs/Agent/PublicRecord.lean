import Zbacs.Agent.Deferred.Notices
import Zbacs.Agent.SealFile
import Zbacs.Lib.Trace
import Zbacs.Onchain.Writer.Statements

namespace Zbacs.Agent

open Zbacs.Lib Zbacs.Core Zbacs.Proto Zbacs.Agent.Setup

-- An owner's machine and the chain it writes to, over the machine's life.

structure Office where
  ledger : Ledger
  chain : Onchain.State

-- A lock, with the disk it meets, how the ledger's file behaves around it, and how what it sends
-- travels, if the machine writes at all.
structure LockTurn where
  profile : DeviceProfile
  request : SealRequest
  run : SealRun
  disk : Fs
  now : UInt64
  recordIo : LedgerIo
  carriage : Option Carriage
  readIo : LedgerIo
  clearIo : LedgerIo
  noteIo : LedgerIo

-- What the person answers or pulls back.
inductive TapCall where
  | grant (terms : AccessGrantTerms)
  | revoke (fileId grantId : FixedBytes 32)

def TapCall.call : TapCall → Call
  | grant terms => .grant terms
  | revoke fileId grantId => .revoke fileId grantId

structure TappedWrite where
  tapped : TapCall
  carriage : Option Carriage
  readIo : LedgerIo
  clearIo : LedgerIo

-- The machine locks a file, reads its inbox, or carries out an answer; or others use the contracts.
inductive OfficeTurn where
  | lock (turn : LockTurn)
  | read (now : UInt64) (envelopes : List Proto.Envelope) (turns : Nat → NoticeTurn)
  | tap (turn : TappedWrite)
  | others (txs : List Contracts.Tx)

inductive OfficeEvent where
  | locked (result : Except SealProblem SealResult) (disk : Fs)
  | took (notices : List Taking)
  | answered (result : Except ChainError (FixedBytes 32))
  | mined

-- Whose machine it is: its keys, the inbox it reads, the contracts, the account it writes with, and
-- whether its silent writes wait for a tap.
structure OfficeOf (L : Libraries) where
  owner : OwnerKeys L.toPrimitives
  inbox : Bytes
  contracts : Contracts.Deployment
  account : Contracts.Address
  defers : Bool

section

variable {L : Libraries} (office : OfficeOf L)

-- The registration as the writer sends it, by way of the ledger it finds.
def LockTurn.env (t : LockTurn) (s : Onchain.State) : SealFileEnv where
  run := t.run
  now := t.now
  recordIo := t.recordIo
  link := t.carriage.map fun _ => ⟨true, false, office.defers⟩
  chain :=
    { submit := fun batch => match t.carriage with
        | none => .error (.config "no writer")
        | some carriage => ((carriage.writing batch).run office.contracts office.account s).result
      readIo := t.readIo
      clearIo := t.clearIo
      noteIo := t.noteIo }

-- What is on the chain after a lock that went through.
def LockTurn.chainAfter (t : LockTurn) (result : SealResult) (l : Ledger) (s : Onchain.State) :
    Onchain.State :=
  let l := (l.record t.recordIo (Entry.ofSeal result t.request t.now)).2
  match t.carriage, hexDecodeTo 32 result.fid, hexDecodeTo 32 result.headerHash with
  | some carriage, some fid, some headerHash =>
    ((carriage.writing (registerBatch (l.waitingBumps t.readIo) fid headerHash)).run office.contracts
      office.account s).state
  | _, _, _ => s

def Office.turn (s : Office) : OfficeTurn → OfficeEvent × Office
  | .lock t =>
    let done := sealFile L.toPrimitives office.owner t.profile t.request (t.env office s.chain) t.disk s.ledger
    match (sealNow L.toPrimitives office.owner t.profile t.request t.run t.disk).1 with
    | .error _ => (.locked done.result done.fs, ⟨done.ledger, s.chain⟩)
    | .ok result => (.locked done.result done.fs, ⟨done.ledger, t.chainAfter office result s.ledger s.chain⟩)
  | .read now envelopes turns =>
    let r := nextRequestsOn office.contracts office.account office.defers L office.inbox now envelopes turns []
      s.ledger s.chain
    (.took r.accepted, ⟨r.ledger, r.state⟩)
  | .tap t =>
    let done := ChainLink.tap office.contracts office.account
      ⟨t.carriage, t.readIo, t.clearIo, [], [], [], []⟩ t.tapped.call s.ledger s.chain
    (.answered done.result, ⟨done.ledger, done.state⟩)
  | .others txs =>
    (.mined, ⟨s.ledger, { s.chain with world := s.chain.world.executeAll office.contracts txs }⟩)

abbrev OfficeStep := Taken Office OfficeTurn OfficeEvent

-- A version the machine answers for: it is the container of a file that was locked here, or an editor
-- told of it and the notice was taken into the record.
def Vouches (x : OfficeStep) (fid headerHash : FixedBytes 32) : Prop :=
  match x.input, x.output with
  | .lock t, .locked (.ok _) disk => ∃ result content header container headerBytes frames,
      LockedAs L.toPrimitives office.owner t.profile t.request t.run t.disk disk result content header
        container headerBytes frames ∧
      header.body.fid = fid ∧ L.sha256 headerBytes = headerHash
  | .read now envelopes _, .took notices => ∃ envelope ∈ envelopes, ∃ notice turn,
      acceptVersion L envelope office.inbox now = some notice ∧ (notice, turn) ∈ notices ∧
      notice.fid = fid ∧ notice.headerHash = headerHash
  | _, _ => False

-- A turn in which nobody else writes with the account.
def OfficeTurn.Foreign (account : Contracts.Address) : OfficeTurn → Prop
  | .lock t => ∀ carriage ∈ t.carriage, ∀ batch, (carriage.writing batch).Foreign account
  | .read _ _ turns => ∀ i call, ((turns i).writing call).Foreign account
  | .tap t => ∀ carriage ∈ t.carriage, ∀ batch, (carriage.writing batch).Foreign account
  | .others txs => Onchain.Foreign account txs

end

-- What the registry has of the owner's files comes from the owner's machine.

-- A version that one of these turns vouches for.
def Said {L : Libraries} (office : OfficeOf L) (log : List OfficeStep) (fid headerHash : FixedBytes 32) :
    Prop :=
  ∃ x ∈ log, Vouches office x fid headerHash

-- A queue of versions, as far as they can be read.
def QueueOf (said : FixedBytes 32 → FixedBytes 32 → Prop) (waiting : List (String × String)) : Prop :=
  ∀ bump ∈ waiting, ∀ fid headerHash, decodeBump bump = some (.bumpVersion fid headerHash) →
    said fid headerHash

structure VouchedFor {L : Libraries} (office : OfficeOf L) (log : List OfficeStep) (s : Office) : Prop where
  queue : QueueOf (Said office log) s.ledger.deferredBumps
  record : Onchain.SaidBy office.account (Said office log) s.chain.world

section Batches

variable {said : FixedBytes 32 → FixedBytes 32 → Prop} {waiting waiting' : List (String × String)}
  {l : Ledger}

theorem QueueOf.subset (h : QueueOf said waiting) (hsub : ∀ bump ∈ waiting', bump ∈ waiting) :
    QueueOf said waiting' := fun bump hbump => h bump (hsub bump hbump)

theorem QueueOf.mono {said' : FixedBytes 32 → FixedBytes 32 → Prop} (h : QueueOf said waiting)
    (hsaid : ∀ fid headerHash, said fid headerHash → said' fid headerHash) : QueueOf said' waiting :=
  fun bump hbump _ _ hdecode => hsaid _ _ (h bump hbump _ _ hdecode)

theorem mem_waitingBumps {io : LedgerIo} {bump : String × String} (h : bump ∈ l.waitingBumps io) :
    bump ∈ l.deferredBumps := by
  unfold Ledger.waitingBumps at h
  split_ifs at h
  · exact h
  · exact absurd h List.not_mem_nil

theorem decodeBump_eq_some {bump : String × String} {call : Call} (h : decodeBump bump = some call) :
    ∃ fid headerHash, call = .bumpVersion fid headerHash := by
  obtain ⟨fid, -, h⟩ := Option.bind_eq_some_iff.mp h
  obtain ⟨headerHash, -, h⟩ := Option.bind_eq_some_iff.mp h
  exact ⟨fid, headerHash, (Option.some.inj h).symm⟩

-- What was queued goes out as it was queued.
theorem QueueOf.says (h : QueueOf said waiting) {call : Onchain.Call}
    (hcall : call ∈ (waiting.filterMap decodeBump).map Call.onchain) :
    Onchain.Says said call.targetAndData := by
  obtain ⟨queued, hqueued, rfl⟩ := List.mem_map.mp hcall
  obtain ⟨bump, hbump, hdecode⟩ := List.mem_filterMap.mp hqueued
  obtain ⟨fid, headerHash, rfl⟩ := decodeBump_eq_some hdecode
  exact h bump hbump fid headerHash hdecode

theorem registerBatch_eq (fid headerHash : FixedBytes 32) : registerBatch waiting fid headerHash =
    (waiting.filterMap decodeBump).map Call.onchain ++ [.register fid headerHash] := by
  rw [registerBatch, List.map_filterMap]
  congr 2
  funext bump
  unfold decodeBump
  cases hexDecodeTo 32 bump.1 with
  | none => rfl
  | some fid => cases hexDecodeTo 32 bump.2 <;> rfl

theorem calls_writing (carriage : Carriage) (batch : List Onchain.Call) :
    (carriage.writing batch).calls = batch := by
  cases carriage with
  | direct passage =>
      change (batch.mapIdx fun i call => (call, passage i)).map Prod.fst = batch
      refine List.ext_getElem (by simp) fun i hi hi' => ?_
      simp
  | account op => rfl

theorem says_tapped (h : QueueOf said waiting) (tapped : TapCall) {call : Onchain.Call}
    (hcall : call ∈ batchOf waiting tapped.call) : Onchain.Says said call.targetAndData := by
  rw [batchOf, List.map_append] at hcall
  rcases List.mem_append.mp hcall with hcall | hcall
  · exact h.says hcall
  · obtain rfl := List.mem_singleton.mp hcall
    cases tapped <;> trivial

theorem says_registered (h : QueueOf said waiting) {fid headerHash : FixedBytes 32}
    (hsaid : said fid headerHash) {call : Onchain.Call}
    (hcall : call ∈ registerBatch waiting fid headerHash) : Onchain.Says said call.targetAndData := by
  rw [registerBatch_eq] at hcall
  rcases List.mem_append.mp hcall with hcall | hcall
  · exact h.says hcall
  · obtain rfl := List.mem_singleton.mp hcall
    exact hsaid

end Batches

section Seal

variable {P : Primitives} {owner : OwnerKeys P} {profile : DeviceProfile} {request : SealRequest}
  {env : SealFileEnv} {fs fs' : Fs} {l : Ledger} {result : SealResult}

-- Registering queues nothing.
theorem queue_register (link : ChainLink) (renv : RegisterEnv) (fid headerHash : FixedBytes 32) :
    ∀ bump ∈ (link.register renv fid headerHash l).2.deferredBumps, bump ∈ l.deferredBumps := by
  unfold ChainLink.register
  cases link.writes with
  | false => exact fun _ => id
  | true =>
      simp only [Bool.not_true, Bool.false_eq_true, if_false]
      cases renv.submit (registerBatch (l.waitingBumps renv.readIo) fid headerHash) with
      | error e => exact fun _ => id
      | ok tx =>
          dsimp only
          split_ifs
          · exact fun _ => id
          · exact fun bump hbump => (mem_clearDeferredBumps.mp hbump).1

theorem queue_registerOnChain (link : ChainLink) (renv : RegisterEnv) :
    ∀ bump ∈ (registerOnChain link renv result l).2.deferredBumps, bump ∈ l.deferredBumps := by
  unfold registerOnChain
  split_ifs
  · exact fun _ => id
  · split
    · rename_i fid headerHash _ _
      have hqueue := @queue_register l link renv fid headerHash
      split
      · rename_i hregister
        rw [hregister] at hqueue
        exact hqueue
      · rename_i l' tx hregister
        rw [hregister] at hqueue
        refine Ledger.update_invariant (fun l' => ∀ bump ∈ l'.deferredBumps, bump ∈ l.deferredBumps) hqueue
          fun out l'' hchange => ?_
        split at hchange
        · cases hchange
        · cases hchange
          exact hqueue
    · exact fun _ => id

theorem queue_record (io : LedgerIo) (entry : Entry) :
    (l.record io entry).2.deferredBumps = l.deferredBumps :=
  Ledger.update_invariant (fun l' => l'.deferredBumps = l.deferredBumps) rfl fun out l' hchange => by
    cases hchange
    rfl

-- A lock queues nothing.
theorem queue_sealFile : ∀ bump ∈ (sealFile P owner profile request env fs l).ledger.deferredBumps,
    bump ∈ l.deferredBumps := by
  unfold sealFile
  split
  · exact fun _ => id
  · rename_i result fs' _
    have hrecord := @queue_record l env.recordIo (Entry.ofSeal result request env.now)
    dsimp only
    split
    · exact fun bump hbump => hrecord ▸ hbump
    · rename_i link _
      have hqueue := @queue_registerOnChain (l.record env.recordIo (Entry.ofSeal result request env.now)).2
        result link env.chain
      rw [hrecord] at hqueue
      split
      · rename_i hregister
        rw [hregister] at hqueue
        exact hqueue
      · rename_i hregister
        rw [hregister] at hqueue
        exact hqueue

variable (env l) in
-- Nothing that follows a lock takes it back.
theorem sealFile_ok (h : sealNow P owner profile request env.run fs = (.ok result, fs')) :
    ∃ shown, (sealFile P owner profile request env fs l).result = .ok shown ∧
      (sealFile P owner profile request env fs l).fs = fs' := by
  unfold sealFile
  rw [h]
  dsimp only
  split
  · exact ⟨_, rfl, rfl⟩
  · split <;> exact ⟨_, rfl, rfl⟩

end Seal

section Read

variable {d : Contracts.Deployment} {account : Contracts.Address} {defers : Bool} {l : Ledger}
  {s : Onchain.State} {said : FixedBytes 32 → FixedBytes 32 → Prop} {notices : List Taking}

theorem mem_of_accepted : ∀ y ∈ (takeNotices d account defers notices l s).accepted, y ∈ notices := by
  induction notices generalizing l s with
  | nil => exact fun _ h => absurd h List.not_mem_nil
  | cons x rest ih =>
      obtain ⟨notice, t⟩ := x
      intro y hy
      rw [takeNotices] at hy
      rcases happly : applyVersion (t.env d account defers notice s) notice l with ⟨e | entry, l'⟩
      · rw [happly] at hy
        exact List.mem_cons_of_mem _ (ih y hy)
      · rw [happly] at hy
        rcases List.mem_cons.mp hy with rfl | hy
        · exact List.mem_cons_self
        · exact List.mem_cons_of_mem _ (ih y hy)

-- What the notices of a read put on the chain are the versions they tell of.
theorem saidBy_takeNotices (h : Onchain.SaidBy account said s.world)
    (hforeign : ∀ x ∈ notices, ∀ call, (x.2.writing call).Foreign account)
    (hsaid : ∀ y ∈ (takeNotices d account defers notices l s).accepted, said y.1.fid y.1.headerHash) :
    Onchain.SaidBy account said (takeNotices d account defers notices l s).state.world := by
  induction notices generalizing l s with
  | nil => exact h
  | cons x rest ih =>
      obtain ⟨notice, t⟩ := x
      obtain ⟨hahead, hforeign⟩ := List.forall_mem_cons.mp hforeign
      rw [takeNotices] at hsaid ⊢
      rcases happly : applyVersion (t.env d account defers notice s) notice l with ⟨e | entry, l'⟩
      · rw [happly] at hsaid
        exact ih h hforeign hsaid
      · rw [happly] at hsaid
        obtain ⟨hnotice, hsaid⟩ := List.forall_mem_cons.mp hsaid
        refine ih ?_ hforeign hsaid
        cases defers with
        | true => exact h
        | false =>
            refine h.run (fun call hcall => ?_) (hahead _)
            obtain rfl : call = .bumpVersion notice.fid notice.headerHash := by
              unfold NoticeTurn.writing at hcall
              split at hcall <;> exact List.mem_singleton.mp hcall
            exact hnotice

-- What waits after a read was waiting before, or was told of in it.
theorem queue_takeNotices (h : QueueOf said l.deferredBumps)
    (hsaid : ∀ y ∈ (takeNotices d account defers notices l s).accepted, said y.1.fid y.1.headerHash) :
    QueueOf said (takeNotices d account defers notices l s).ledger.deferredBumps := by
  intro bump hbump fid headerHash hdecode
  rcases (mem_takeNotices notices).mp hbump with hnewest | ⟨-, hthere⟩
  · obtain ⟨y, hy, -, -, hpair⟩ := newest_defersOf hnewest
    obtain rfl : pairOf y.1 = bump := hpair
    have hread := (decodeBump_hexEncode y.1.fid y.1.headerHash).symm.trans hdecode
    obtain ⟨rfl, rfl⟩ := Call.bumpVersion.inj (Option.some.inj hread)
    exact hsaid y hy
  · exact h bump hthere fid headerHash hdecode

end Read

section Turns

variable {L : Libraries} {office : OfficeOf L} {log : List OfficeStep} {s : Office}

theorem Said.mono {fid headerHash : FixedBytes 32} (h : Said office log fid headerHash) (x : OfficeStep) :
    Said office (log ++ [x]) fid headerHash := by
  obtain ⟨y, hy, hvouches⟩ := h
  exact ⟨y, List.mem_append_left _ hy, hvouches⟩

theorem Said.new {fid headerHash : FixedBytes 32} {x : OfficeStep} (h : Vouches office x fid headerHash) :
    Said office (log ++ [x]) fid headerHash := ⟨x, by simp, h⟩

theorem VouchedFor.mono (h : VouchedFor office log s) (x : OfficeStep) : VouchedFor office (log ++ [x]) s where
  queue := h.queue.mono fun _ _ hsaid => hsaid.mono x
  record := h.record.mono fun _ _ hsaid => hsaid.mono x

theorem turn_locked {t : LockTurn} {result : SealResult} {disk : Fs}
    (h : sealNow L.toPrimitives office.owner t.profile t.request t.run t.disk = (.ok result, disk)) :
    (Office.turn office s (.lock t)).2.chain = t.chainAfter office result s.ledger s.chain := by
  simp only [Office.turn, h]

theorem chainAfter_eq {t : LockTurn} {result : SealResult} {l : Ledger} {st : Onchain.State}
    {carriage : Carriage} {fid headerHash : FixedBytes 32} (hcarriage : t.carriage = some carriage)
    (hfid : hexDecodeTo 32 result.fid = some fid)
    (hhash : hexDecodeTo 32 result.headerHash = some headerHash) :
    t.chainAfter office result l st = ((carriage.writing (registerBatch
      ((l.record t.recordIo (Entry.ofSeal result t.request t.now)).2.waitingBumps t.readIo) fid
        headerHash)).run office.contracts office.account st).state := by
  unfold LockTurn.chainAfter
  rw [hcarriage, hfid, hhash]

theorem VouchedFor.lock (hP : L.toPrimitives.Lawful) (h : VouchedFor office log s) {t : LockTurn}
    (hforeign : (OfficeTurn.lock t).Foreign office.account) :
    VouchedFor office (log ++ [taken (Office.turn office) s (.lock t)])
      (Office.turn office s (.lock t)).2 := by
  have hmono := h.mono (taken (Office.turn office) s (.lock t))
  generalize hx : taken (Office.turn office) s (.lock t) = x at hmono ⊢
  rcases hseal : sealNow L.toPrimitives office.owner t.profile t.request t.run t.disk with
    ⟨e | result, disk⟩
  · simp only [Office.turn, hseal]
    exact ⟨hmono.queue.subset queue_sealFile, hmono.record⟩
  · obtain ⟨content, header, container, headerBytes, frames, hlocked⟩ := sealNow_eq_ok hP hseal
    obtain ⟨shown, hshown, hdisk⟩ := sealFile_ok (t.env office s.chain) s.ledger hseal
    have hvouches : Vouches office x header.body.fid (L.sha256 headerBytes) := by
      subst hx
      simp only [Vouches, taken, Office.turn, hseal, hshown, hdisk]
      exact ⟨result, content, header, container, headerBytes, frames, hlocked, rfl, rfl⟩
    simp only [Office.turn, hseal]
    refine ⟨hmono.queue.subset queue_sealFile, ?_⟩
    have hfid : hexDecodeTo 32 result.fid = some header.body.fid := by
      rw [hlocked.result_eq]
      exact hexDecodeTo_hexEncode _
    have hhash : hexDecodeTo 32 result.headerHash = some (L.sha256 headerBytes) := by
      rw [hlocked.result_eq]
      exact hexDecodeTo_hexEncode _
    unfold LockTurn.chainAfter
    rw [hfid, hhash]
    cases hcarriage : t.carriage with
    | none => exact hmono.record
    | some carriage =>
        refine hmono.record.run (fun call hcall => ?_) (hforeign carriage hcarriage _)
        rw [calls_writing] at hcall
        refine says_registered (hmono.queue.subset fun bump hbump => ?_) (.new hvouches) hcall
        exact queue_record t.recordIo _ ▸ mem_waitingBumps hbump

theorem VouchedFor.read (h : VouchedFor office log s) {now : UInt64} {envelopes : List Proto.Envelope}
    {turns : Nat → NoticeTurn} (hforeign : (OfficeTurn.read now envelopes turns).Foreign office.account) :
    VouchedFor office (log ++ [taken (Office.turn office) s (.read now envelopes turns)])
      (Office.turn office s (.read now envelopes turns)).2 := by
  have hmono := h.mono (taken (Office.turn office) s (.read now envelopes turns))
  have hsaid : ∀ y ∈ (nextRequestsOn office.contracts office.account office.defers L office.inbox now
      envelopes turns [] s.ledger s.chain).accepted,
      Said office (log ++ [taken (Office.turn office) s (.read now envelopes turns)]) y.1.fid
        y.1.headerHash := by
    intro y hy
    refine .new ?_
    obtain ⟨i, hi, hyi⟩ := List.mem_mapIdx.mp (mem_of_accepted y hy)
    obtain ⟨envelope, henvelope, haccept⟩ := List.mem_filterMap.mp (List.getElem_mem hi)
    refine ⟨envelope, henvelope, y.1, y.2, ?_, hy, rfl, rfl⟩
    rw [haccept, ← hyi]
  refine ⟨queue_takeNotices hmono.queue hsaid, ?_⟩
  refine saidBy_takeNotices hmono.record (fun x hx call => ?_) hsaid
  obtain ⟨i, hi, rfl⟩ := List.mem_mapIdx.mp hx
  exact hforeign i call

theorem VouchedFor.tap (h : VouchedFor office log s) {t : TappedWrite}
    (hforeign : (OfficeTurn.tap t).Foreign office.account) :
    VouchedFor office log (Office.turn office s (.tap t)).2 := by
  obtain ⟨tapped, carriage, readIo, clearIo⟩ := t
  refine ⟨h.queue.subset fun bump hbump => ?_, ?_⟩
  · rcases mem_tap.mp hbump with hlate | ⟨-, hthere, -⟩
    · cases hlate
    · exact hthere
  · cases carriage with
    | none => exact h.record
    | some carriage =>
        refine h.record.run (fun call hcall => ?_) (hforeign carriage rfl _)
        rw [calls_writing] at hcall
        exact says_tapped (h.queue.subset fun bump => mem_waitingBumps) tapped hcall

theorem VouchedFor.turn (hP : L.toPrimitives.Lawful) (h : VouchedFor office log s) {t : OfficeTurn}
    (hforeign : t.Foreign office.account) :
    VouchedFor office (log ++ [taken (Office.turn office) s t]) (Office.turn office s t).2 := by
  cases t with
  | lock t => exact h.lock hP hforeign
  | read now envelopes turns => exact h.read hforeign
  | tap t => exact (h.tap hforeign).mono _
  | others txs =>
      have hothers : VouchedFor office log (Office.turn office s (.others txs)).2 :=
        ⟨h.queue, h.record.executeAll hforeign⟩
      exact hothers.mono _

end Turns

-- From a fresh account on, and whatever fails on the way, the registry has nothing of the owner's files
-- but what came from this machine: the current version of each is a container that was locked here, or
-- one an editor's notice told of that was taken into the record.
theorem public_record_vouched {L : Libraries} (hP : L.toPrimitives.Lawful) (office : OfficeOf L)
    (s : Office) (hqueue : s.ledger.deferredBumps = [])
    (hfresh : ∀ fid, (s.chain.world.chain.registry.files fid).owner ≠ office.account)
    (turns : List OfficeTurn) (hforeign : ∀ t ∈ turns, t.Foreign office.account) (fid : FixedBytes 32)
    (howner : ((final (Office.turn office) turns s).chain.world.chain.registry.files fid).owner =
      office.account) :
    ∃ x ∈ trace (Office.turn office) turns s, Vouches office x fid
      ((final (Office.turn office) turns s).chain.world.chain.registry.files fid).headerHash := by
  have hvouched : VouchedFor office (trace (Office.turn office) turns s)
      (final (Office.turn office) turns s) := by
    refine @trace_induct_along _ _ _ (Office.turn office) (fun _ x => x.input.Foreign office.account)
      (VouchedFor office) s ?_ (fun log s t h ht => h.turn hP ht) turns ?_
    · refine ⟨?_, fun fid howner => absurd howner (hfresh fid)⟩
      rw [hqueue]
      exact fun _ h => absurd h List.not_mem_nil
    · intro pre x post hsplit
      refine hforeign x.input ?_
      rw [← @map_input_trace _ _ _ (Office.turn office) turns s, hsplit]
      exact List.mem_map_of_mem (by simp)
  exact hvouched.record fid howner

namespace Reference

open Zbacs.Agent.Setup.Reference

def office : OfficeOf libraries :=
  ⟨Core.Reference.owner, [0x01], Onchain.Reference.deployment, Onchain.Reference.owner, false⟩

def newOffice : Office := ⟨.empty, ⟨.deployed, .new⟩⟩

-- A file is locked and registered, by a transaction of its own.
def registering : LockTurn where
  profile := setUpProfile
  request := lockAlone "a.txt"
  run := lockRun
  disk := alone "a.txt"
  now := 50
  recordIo := .sound
  carriage := some (.direct fun _ => ⟨true, [], some (Onchain.Reference.block 100), some (.replicate 32 9)⟩)
  readIo := .sound
  clearIo := .sound
  noteIo := .sound

theorem registering_foreign : (OfficeTurn.lock registering).Foreign office.account := by
  intro carriage hcarriage batch
  obtain rfl := Option.some.inj hcarriage
  intro q hq tx htx
  obtain ⟨i, hi, rfl⟩ := List.mem_mapIdx.mp hq
  exact absurd htx List.not_mem_nil

-- Whether the header of the container has a hash that the registry takes.
def hashTaken : Bool :=
  match (writeLocked libraries.toPrimitives Core.Reference.owner setUpProfile (lockAlone "a.txt") lockRun
    (alone "a.txt")).1 with
  | .error _ => false
  | .ok header => match header.encode libraries.toPrimitives with
    | .error _ => false
    | .ok headerBytes => libraries.sha256 headerBytes ≠ Contracts.zeroHash

theorem registered_vouched : ∃ fid,
    ((final (Office.turn office) [.lock registering] newOffice).chain.world.chain.registry.files fid).owner =
      office.account ∧
    ∃ x ∈ trace (Office.turn office) [.lock registering] newOffice, Vouches office x fid
      ((final (Office.turn office) [.lock registering] newOffice).chain.world.chain.registry.files
        fid).headerHash := by
  obtain ⟨result, fs, hseal⟩ := sealNow_alone libraries_lawful Core.Reference.owner setUpProfile lockable
  obtain ⟨content, header, container, headerBytes, frames, hlocked⟩ := sealNow_eq_ok libraries_lawful hseal
  have hhash : libraries.sha256 headerBytes ≠ Contracts.zeroHash := by
    have htaken : hashTaken = true := by decide +kernel
    unfold hashTaken at htaken
    rw [hlocked.wrote] at htaken
    dsimp only at htaken
    rw [hlocked.sealed.encoded] at htaken
    exact of_decide_eq_true htaken
  have hfid : hexDecodeTo 32 result.fid = some header.body.fid := by
    rw [hlocked.result_eq]
    exact hexDecodeTo_hexEncode _
  have hhex : hexDecodeTo 32 result.headerHash = some (libraries.sha256 headerBytes) := by
    rw [hlocked.result_eq]
    exact hexDecodeTo_hexEncode _
  have hseal' : sealNow libraries.toPrimitives office.owner registering.profile registering.request
      registering.run registering.disk = (.ok result, fs) := hseal
  have hchain : (final (Office.turn office) [.lock registering] newOffice).chain =
      ((Onchain.Writing.directBatch [(.register header.body.fid (libraries.sha256 headerBytes),
        ⟨true, [], some (Onchain.Reference.block 100), some (.replicate 32 9)⟩)]).run office.contracts
        office.account newOffice.chain).state := by
    rw [final, final, turn_locked hseal', chainAfter_eq rfl hfid hhex]
    rfl
  have howner : ((final (Office.turn office) [.lock registering] newOffice).chain.world.chain.registry.files
      header.body.fid).owner = office.account := by
    have hregister : Contracts.FileRegistry.deployed.register Onchain.Reference.owner header.body.fid
        (libraries.sha256 headerBytes) = .ok (.registered header.body.fid Onchain.Reference.owner
          (libraries.sha256 headerBytes), Contracts.FileRegistry.deployed.write header.body.fid
            ⟨Onchain.Reference.owner, libraries.sha256 headerBytes, 1, false⟩) := by
      unfold Contracts.FileRegistry.register
      rw [if_neg hhash, if_neg (fun h => h rfl)]
    rw [hchain, Onchain.Writing.run, Onchain.DirectWriter.submit, Onchain.submitFrom_world]
    simp [Onchain.landing, Onchain.Passage.mine, Onchain.World.executeAll, Onchain.World.attempt,
      Onchain.World.execute, Contracts.Chain.transact, Contracts.Chain.onRegistry, newOffice,
      Onchain.World.deployed, Contracts.Chain.deployed, Onchain.Call.targetAndData, Onchain.Block.msg,
      Onchain.Reference.block, office, hregister]
  refine ⟨header.body.fid, howner, ?_⟩
  exact public_record_vouched libraries_lawful office newOffice rfl
    (fun fid => show Contracts.Address.zero ≠ Onchain.Reference.owner by decide) [.lock registering]
    (by simpa using registering_foreign) header.body.fid howner

end Reference

end Zbacs.Agent
