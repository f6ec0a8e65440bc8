import Zbacs.Agent.Deferred.Queue
import Zbacs.Agent.Owner.Notices

namespace Zbacs.Agent

open Zbacs.Lib Zbacs.Core Zbacs.Proto

-- Whether a version that is taken into the record also gets onto the chain or into the queue.

-- What one notice meets: the ledger's file at each of its uses, and how the transaction or the
-- operation fares with which the version is anchored.
structure NoticeTurn where
  readIo : LedgerIo
  writeIo : LedgerIo
  deferIo : LedgerIo
  travel : Onchain.Passage ⊕ Onchain.Operation

def NoticeTurn.writing (t : NoticeTurn) (call : Onchain.Call) : Onchain.Writing :=
  match t.travel with
  | .inl p => .direct call p
  | .inr op => .account call op

-- A notice that was taken, with what it met.
abbrev Taking := VersionMsg × NoticeTurn

structure InboxRead where
  accepted : List Taking
  ledger : Ledger
  state : Onchain.State

section

variable (d : Contracts.Deployment) (owner : Contracts.Address) (defers : Bool)

-- The link of a machine that writes, with the writer's own code behind it.
def NoticeTurn.env (t : NoticeTurn) (notice : VersionMsg) (s : Onchain.State) : NoticeEnv :=
  { readIo := t.readIo
    writeIo := t.writeIo
    link := some ⟨true, false, defers⟩
    chain := ⟨fun _ => ((t.writing (.bumpVersion notice.fid notice.headerHash)).run d owner s).result,
      t.readIo, t.deferIo⟩ }

-- The notices of one inbox read, one after another.
def takeNotices : List Taking → Ledger → Onchain.State → InboxRead
  | [], l, s => ⟨[], l, s⟩
  | (notice, t) :: rest, l, s =>
      let env := t.env d owner defers notice s
      match applyVersion env notice l with
      | (.error _, _) => takeNotices rest (takeNotice env notice l) s
      | (.ok _, _) =>
        let s := if defers then s
          else ((t.writing (.bumpVersion notice.fid notice.headerHash)).run d owner s).state
        let read := takeNotices rest (takeNotice env notice l) s
        { read with accepted := (notice, t) :: read.accepted }

-- `next_requests_on` with a link that has a writer: the version notices among the envelopes, and
-- what others have mined by the time it returns.
def nextRequestsOn (L : Libraries) (account : Bytes) (now : UInt64) (envelopes : List Proto.Envelope)
    (turns : Nat → NoticeTurn) (behind : List Contracts.Tx) (l : Ledger) (s : Onchain.State) : InboxRead :=
  let notices := envelopes.filterMap fun e => acceptVersion L e account now
  let read := takeNotices d owner defers (notices.mapIdx fun i notice => (notice, turns i)) l s
  { read with state := { read.state with world := read.state.world.executeAll d behind } }

end

-- The version as the queue has it.
def pairOf (notice : VersionMsg) : String × String :=
  (hexEncode notice.fid.bytes, hexEncode notice.headerHash.bytes)

-- Every version that was taken is on the chain or in the queue, or a later one of its file that was
-- taken too is in the queue in its place.
def InboxRead.Anchored (r : InboxRead) : Prop :=
  ∀ pre x post, r.accepted = pre ++ x :: post →
    r.state.world.Bumped x.1.fid x.1.headerHash ∨
      ∃ y ∈ x :: post, y.1.fid = x.1.fid ∧ pairOf y.1 ∈ r.ledger.deferredBumps

-- The versions that a link which waits for a tap has queued after these notices.
def defersOf (defers : Bool) (taken : List Taking) : List Defer :=
  if defers then taken.map fun y => ⟨y.2.deferIo, (pairOf y.1).1, (pairOf y.1).2⟩ else []

-- The pair is in the queue when these notices have been taken.
def StillWaits (defers : Bool) (l : Ledger) (taken : List Taking) (bump : String × String) : Prop :=
  newest (defersOf defers taken) bump.1 = some bump.2 ∨
    newest (defersOf defers taken) bump.1 = none ∧ bump ∈ l.deferredBumps

-- For every version that was taken: it is on the chain by the return; or the link queues, and the
-- ledger can be rewritten when this version, or a later one of its file, is queued; or one of them
-- was in the queue already.
def InboxRead.Provided (r : InboxRead) (defers : Bool) (l : Ledger) : Prop :=
  ∀ pre x post, r.accepted = pre ++ x :: post →
    r.state.world.Bumped x.1.fid x.1.headerHash ∨
      ∃ y ∈ x :: post, y.1.fid = x.1.fid ∧
        (defers = true ∧ y.2.deferIo = .sound ∨ StillWaits defers l pre (pairOf y.1))

section

variable {d : Contracts.Deployment} {owner : Contracts.Address} {defers : Bool} {l : Ledger}
  {s : Onchain.State} {bump : String × String}

theorem applyVersion_queue (env : NoticeEnv) (notice : VersionMsg) :
    (applyVersion env notice l).2.deferredBumps = l.deferredBumps := by
  rcases happly : applyVersion env notice l with ⟨e | entry, l'⟩
  · unfold applyVersion at happly
    split at happly
    · cases happly
      rfl
    · split at happly
      · cases happly
        rfl
      · split at happly
        · rename_i hadvance
          cases happly
          rw [Ledger.update_keeps hadvance]
        · cases happly
  · obtain ⟨-, old, -, -, -, -, rfl⟩ := (applyVersion_eq_ok.mp happly).2 |> Ledger.advanceVersion_eq_ok.mp
    rfl

-- A writer that puts its silent writes off leaves what the queue leaves.
theorem bumpVersion_after {link : ChainLink} {env : ChainEnv} {fileId headerHash : FixedBytes 32}
    (hwrites : link.writes = true) (hdefers : link.defersSilentWrites = true) :
    (link.bumpVersion env fileId headerHash l).2 =
      (l.deferBump env.writeIo (hexEncode fileId.bytes) (hexEncode headerHash.bytes)).2 := by
  rw [ChainLink.bumpVersion, hwrites, if_neg (by simp), if_pos hdefers]
  rcases l.deferBump env.writeIo (hexEncode fileId.bytes) (hexEncode headerHash.bytes) with ⟨_ | _, _⟩
  · rfl
  · rfl

theorem takeNotice_ok {t : NoticeTurn} {notice : VersionMsg} {entry : Entry} {l' : Ledger}
    (h : applyVersion (t.env d owner defers notice s) notice l = (.ok entry, l')) :
    takeNotice (t.env d owner defers notice s) notice l =
      if defers then (l'.deferBump t.deferIo (pairOf notice).1 (pairOf notice).2).2 else l' := by
  rw [takeNotice, h]
  change (ChainLink.bumpVersion ⟨true, false, defers⟩ (t.env d owner defers notice s).chain notice.fid
    notice.headerHash l').2 = _
  cases defers with
  | false => rfl
  | true => exact bumpVersion_after rfl rfl

-- What a notice that is taken leaves of the queue.
theorem mem_takeNotice {t : NoticeTurn} {notice : VersionMsg} {entry : Entry} {l' : Ledger}
    (h : applyVersion (t.env d owner defers notice s) notice l = (.ok entry, l')) :
    bump ∈ (takeNotice (t.env d owner defers notice s) notice l).deferredBumps ↔
      StillWaits defers l [(notice, t)] bump := by
  have hqueue := applyVersion_queue (l := l) (t.env d owner defers notice s) notice
  simp only [h] at hqueue
  rw [takeNotice_ok h]
  cases defers with
  | false => simp [StillWaits, defersOf, newest, hqueue]
  | true =>
      have hdefer := @mem_deferBump l' bump ⟨t.deferIo, (pairOf notice).1, (pairOf notice).2⟩
      rw [hqueue] at hdefer
      rw [if_pos rfl, hdefer, StillWaits, defersOf, if_pos rfl, List.map_singleton, newest_singleton]

theorem defersOf_append (xs ys : List Taking) :
    defersOf defers (xs ++ ys) = defersOf defers xs ++ defersOf defers ys := by
  unfold defersOf
  split_ifs
  · exact List.map_append
  · rfl

-- The queue after an inbox read, by the notices that were taken.
theorem mem_takeNotices (notices : List Taking) :
    bump ∈ (takeNotices d owner defers notices l s).ledger.deferredBumps ↔
      StillWaits defers l (takeNotices d owner defers notices l s).accepted bump := by
  induction notices generalizing l s with
  | nil => simp [takeNotices, StillWaits, defersOf, newest]
  | cons x rest ih =>
      obtain ⟨notice, t⟩ := x
      rw [takeNotices]
      rcases happly : applyVersion (t.env d owner defers notice s) notice l with ⟨e | entry, l'⟩
      · have hqueue := applyVersion_queue (l := l) (t.env d owner defers notice s) notice
        simp only [happly] at hqueue
        dsimp only
        rw [ih, takeNotice, happly]
        dsimp only
        rw [StillWaits, hqueue, StillWaits]
      · dsimp only
        rw [ih]
        generalize takeNotices d owner defers rest _ _ = read
        change _ ↔ StillWaits defers l ([(notice, t)] ++ read.accepted) bump
        rw [StillWaits, mem_takeNotice happly, StillWaits, StillWaits, defersOf_append, newest_append]
        cases newest (defersOf defers read.accepted) bump.1 <;> simp

end

-- Where the queue comes from, seen from one of the notices that were taken.
section Provided

variable {defers : Bool} {l : Ledger} {pre post : List Taking} {x y : Taking}

theorem newest_defersOf {taken : List Taking} {fid headerHash : String}
    (h : newest (defersOf defers taken) fid = some headerHash) :
    ∃ y ∈ taken, defers = true ∧ y.2.deferIo = .sound ∧ pairOf y.1 = (fid, headerHash) := by
  obtain ⟨z, hz, hnewer⟩ := List.mem_filterMap.mp (List.mem_of_getLast? h)
  rw [Defer.newer] at hnewer
  split_ifs at hnewer with hsound
  rw [defersOf] at hz
  split_ifs at hz with hdefers
  · obtain ⟨y, hy, rfl⟩ := List.mem_map.mp hz
    exact ⟨y, hy, hdefers, hsound.1, Prod.ext hsound.2 (Option.some.inj hnewer)⟩
  · exact absurd hz List.not_mem_nil

theorem newest_defersOf_ne_none {taken : List Taking} (hy : y ∈ taken) (hdefers : defers = true)
    (hio : y.2.deferIo = .sound) : newest (defersOf defers taken) (pairOf y.1).1 ≠ none := by
  intro hnone
  have hnewer := @newest_eq_none _ _ hnone ⟨y.2.deferIo, (pairOf y.1).1, (pairOf y.1).2⟩ (by
    rw [defersOf, if_pos hdefers]
    exact List.mem_map.mpr ⟨y, hy, rfl⟩)
  simp [Defer.newer, hio] at hnewer

theorem fid_of_pairOf (h : (pairOf y.1).1 = (pairOf x.1).1) : y.1.fid = x.1.fid :=
  FixedBytes.ext (hexEncode_injective h)

theorem waits_iff : (∃ y ∈ x :: post, y.1.fid = x.1.fid ∧
      StillWaits defers l (pre ++ x :: post) (pairOf y.1)) ↔
    ∃ y ∈ x :: post, y.1.fid = x.1.fid ∧
      (defers = true ∧ y.2.deferIo = .sound ∨ StillWaits defers l pre (pairOf y.1)) := by
  have hfile : ∀ y : Taking, y.1.fid = x.1.fid → (pairOf y.1).1 = (pairOf x.1).1 := by
    intro y hy
    rw [pairOf, pairOf, hy]
  cases hlater : newest (defersOf defers (x :: post)) (pairOf x.1).1 with
  | some headerHash =>
      -- a version of the file taken here or later is the one that waits
      obtain ⟨y, hy, hdefers, hio, hpair⟩ := newest_defersOf hlater
      have hfid : y.1.fid = x.1.fid := fid_of_pairOf (by rw [hpair])
      refine iff_of_true ⟨y, hy, hfid, .inl ?_⟩ ⟨y, hy, hfid, .inl ⟨hdefers, hio⟩⟩
      rw [defersOf_append, newest_append, hpair]
      simp [hlater]
  | none =>
      have hpre : ∀ y : Taking, y.1.fid = x.1.fid → (StillWaits defers l (pre ++ x :: post) (pairOf y.1) ↔
          StillWaits defers l pre (pairOf y.1)) := by
        intro y hy
        rw [StillWaits, defersOf_append, newest_append, hfile y hy, hlater, StillWaits, hfile y hy]
        rfl
      constructor
      · rintro ⟨y, hy, hfid, hwaits⟩
        exact ⟨y, hy, hfid, .inr ((hpre y hfid).mp hwaits)⟩
      · rintro ⟨y, hy, hfid, ⟨hdefers, hio⟩ | hwaits⟩
        · exact absurd (hfile y hfid ▸ hlater) (newest_defersOf_ne_none hy hdefers hio)
        · exact ⟨y, hy, hfid, (hpre y hfid).mpr hwaits⟩

end Provided

namespace Reference

-- The bundler is out of reach.
def unsent : NoticeTurn :=
  ⟨.sound, .sound, .sound, .inr ⟨.error .unreachable, [], none, .error .unreachable⟩⟩

-- The editor's notice of the third version of the file that is registered with the second.
def thirdVersion : VersionMsg :=
  { fid := Onchain.Reference.fileId
    owner := [0x01, 0x02]
    prevHeaderHash := Onchain.Reference.headerHash 2
    headerHash := Onchain.Reference.headerHash 3
    ver := 2
    grantId := .replicate 32 7
    ownerEnvelope := []
    ed25519Pub := device.ed25519Pub
    ts := 5000 }

-- The owner's record of the file and of the approval.
def approvedLedger : Ledger :=
  (Ledger.empty.putFile (Entry.fromSeal Onchain.Reference.fileId (Onchain.Reference.headerHash 2) "a.txt"
    sealed .defaultPolicy 50)).putGrant
      { grantId := hexEncode thirdVersion.grantId.bytes
        fid := hexEncode Onchain.Reference.fileId.bytes
        fileName := "a.txt"
        permission := .edit
        expiry := 9000
        grantedAt := 120
        revokedAt := none
        txHash := none
        revokeTx := none }

theorem registered_bumped (fileId headerHash : FixedBytes 32) :
    ¬ Onchain.Reference.registered.world.Bumped fileId headerHash := by
  rintro ⟨x, hx, version, hout⟩
  rw [Onchain.Reference.registered, Onchain.World.execute, Onchain.World.deployed, List.nil_append,
    List.mem_singleton] at hx
  subst hx
  have hdid := Contracts.transact_did Onchain.Reference.deployment .deployed
    ⟨(Onchain.Reference.block 100).msg Onchain.Reference.owner,
      .register Onchain.Reference.fileId (Onchain.Reference.headerHash 2)⟩
  simp only [taken] at hout
  generalize Contracts.Chain.transact _ _ _ = did at hdid hout
  cases hdid with
  | bumped hcall => cases hcall
  | registryReverted | policyReverted | registered | retired | granted | revoked | opened => cases hout

end Reference

end Zbacs.Agent
