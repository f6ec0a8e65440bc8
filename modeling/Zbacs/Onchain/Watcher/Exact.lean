import Zbacs.Onchain.Watcher

namespace Zbacs.Onchain

open Zbacs.Lib

variable {abi : EventAbi} {c : Blockchain} {first middle last : Nat}
  {addresses : List Contracts.Address}

namespace Blockchain

-- A new block stands behind the others.
theorem blocks_push (block : List Log) (c : Blockchain) :
    ∃ more, (c.push block).blocks = c.blocks ++ more := by
  unfold push
  split_ifs
  · exact ⟨[block], rfl⟩
  · exact ⟨[], (List.append_nil _).symm⟩

theorem blocks_pushAll (blocks : List (List Log)) (c : Blockchain) :
    ∃ more, (c.pushAll blocks).blocks = c.blocks ++ more := by
  induction blocks generalizing c with
  | nil => exact ⟨[], (List.append_nil _).symm⟩
  | cons block blocks ih =>
      obtain ⟨more, hpush⟩ := blocks_push block c
      obtain ⟨more', hrest⟩ := ih (c.push block)
      refine ⟨more ++ more', ?_⟩
      rw [pushAll, List.foldl_cons, ← pushAll, hrest, hpush, List.append_assoc]

-- A height that is told is the number of a block that is there.
theorem blockNumber_lt (lag : Nat) (c : Blockchain) : (c.blockNumber lag).toNat < c.blocks.length := by
  have hpos := List.length_pos_iff.mpr c.nonempty
  rw [blockNumber, UInt64.toNat_ofNat']
  have := Nat.mod_le (c.blocks.length - 1 - lag) (2 ^ 64)
  omega

-- Events of blocks that are there do not change.
theorem events_extend {c' : Blockchain} {more : List (List Log)} (h : c'.blocks = c.blocks ++ more)
    (hlast : last ≤ c.blocks.length) :
    c'.events abi addresses first last = c.events abi addresses first last := by
  rw [events, events, h, slice_append_left more hlast]

theorem events_append (h₁ : first ≤ middle) (h₂ : middle ≤ last) : c.events abi addresses first last =
    c.events abi addresses first middle ++ c.events abi addresses middle last := by
  rw [events, slice_append h₁ h₂, List.flatMap_append]
  rfl

theorem events_self (first : Nat) (c : Blockchain) : c.events abi addresses first first = [] := by
  rw [events, slice_self]
  rfl

-- Decoding the logs of a range gives its events.
theorem filterMap_logs (f : Filter) (c : Blockchain) : (c.logs f).filterMap abi.decode =
    c.events abi f.addresses f.fromBlock.toNat (f.toBlock.toNat + 1) := by
  rw [logs, events, List.filterMap_flatMap]

end Blockchain

-- The ways a poll ends: it fails, there is no new block, or the range up to a block that is there
-- was read.
inductive Polls (abi : EventAbi) (c : Blockchain) (w : EventWatcher) :
    Except ChainError (List Agent.ChainEvent) → EventWatcher → Prop where
  | failed : Polls abi c w (.error .unreachable) w
  | nothing : Polls abi c w (.ok []) w
  | read {head : UInt64} (hhead : head.toNat < c.blocks.length) (hnext : w.nextBlock ≤ head) :
      Polls abi c w (.ok (c.events abi [w.policy, w.registry] w.nextBlock.toNat (head.toNat + 1)))
        { w with nextBlock := head + 1 }

section Poll

variable {w : EventWatcher} {s : Watching}

-- The next block is one more than one that is there, so the number does not overflow.
theorem toNat_next {head : UInt64} (hhead : head.toNat < c.blocks.length) :
    (head + 1).toNat = head.toNat + 1 := by
  have := c.bounded
  rw [UInt64.toNat_add]
  change (head.toNat + 1) % 2 ^ 64 = head.toNat + 1
  omega

theorem step_poll (abi : EventAbi) (s : Watching) (p : Polled) : ∃ answer,
    (s.step abi (.poll p)).1 = some answer ∧
      Polls abi (s.step abi (.poll p)).2.chain s.watcher answer (s.step abi (.poll p)).2.watcher := by
  refine ⟨_, rfl, ?_⟩
  dsimp only [Watching.step]
  obtain ⟨more, hmore⟩ := s.chain.blocks_pushAll p.between
  cases p.number with
  | none => exact .failed
  | some lag =>
      dsimp only [Option.map_some, EventWatcher.poll]
      split_ifs with hnone hlogs
      · exact .nothing
      · dsimp only
        rw [Blockchain.filterMap_logs]
        refine .read (Nat.lt_of_lt_of_le (s.chain.blockNumber_lt lag) ?_) (UInt64.not_lt.mp hnone)
        rw [hmore, List.length_append]
        exact Nat.le_add_right _ _
      · exact .failed

theorem Polls.nextBlock_le {answer : Except ChainError (List Agent.ChainEvent)} {w' : EventWatcher}
    (h : Polls abi c w answer w') : w.nextBlock ≤ w'.nextBlock := by
  cases h with
  | failed => exact UInt64.le_refl _
  | nothing => exact UInt64.le_refl _
  | read hhead hnext =>
      rw [UInt64.le_iff_toNat_le] at hnext ⊢
      dsimp only
      rw [toNat_next hhead]
      omega

theorem Polls.eq_of_error {e : ChainError} {w' : EventWatcher} (h : Polls abi c w (.error e) w') :
    w' = w := by
  cases h
  rfl

end Poll

-- What was delivered are the events up to the next block, which is the one to start from or not
-- beyond the end of the chain.
structure UpToDate (abi : EventAbi) (start : EventWatcher) (polls : List WatchTaken) (s : Watching) :
    Prop where
  policy : s.watcher.policy = start.policy
  registry : s.watcher.registry = start.registry
  from_le : start.nextBlock ≤ s.watcher.nextBlock
  reached : s.watcher.nextBlock = start.nextBlock ∨ s.watcher.nextBlock.toNat ≤ s.chain.blocks.length
  exact : delivered polls = s.chain.events abi [start.policy, start.registry] start.nextBlock.toNat
    s.watcher.nextBlock.toNat

section UpToDate

variable {start : EventWatcher} {polls : List WatchTaken} {s : Watching} {chain : Blockchain}
  {more : List (List Log)}

theorem delivered_append (t : WatchTaken) : delivered (polls ++ [t]) = delivered polls ++
    match t.output with
    | some (.ok events) => events
    | _ => [] := by
  rw [delivered, List.flatMap_append, List.flatMap_singleton]
  rfl

-- New blocks add nothing to what is behind the watcher.
theorem UpToDate.extend (h : UpToDate abi start polls s) (hmore : chain.blocks = s.chain.blocks ++ more) :
    UpToDate abi start polls ⟨chain, s.watcher⟩ where
  policy := h.policy
  registry := h.registry
  from_le := h.from_le
  reached := h.reached.imp_right fun hle => by
    rw [hmore, List.length_append]
    exact Nat.le_add_right_of_le hle
  exact := by
    dsimp only
    rw [h.exact]
    rcases h.reached with heq | hle
    · rw [heq, Blockchain.events_self, Blockchain.events_self]
    · rw [Blockchain.events_extend hmore hle]

-- A poll adds its answer, and the events it answers with.
theorem UpToDate.poll (h : UpToDate abi start polls s) {w : EventWatcher}
    {answer : Except ChainError (List Agent.ChainEvent)} (hpoll : Polls abi s.chain s.watcher answer w)
    {t : WatchTaken} (hout : t.output = some answer) :
    UpToDate abi start (polls ++ [t]) ⟨s.chain, w⟩ := by
  have hdelivered := @delivered_append polls t
  rw [hout] at hdelivered
  cases hpoll with
  | failed | nothing =>
      rw [List.append_nil] at hdelivered
      exact ⟨h.policy, h.registry, h.from_le, h.reached, hdelivered.trans h.exact⟩
  | read hhead hnext =>
      have hfirst := UInt64.le_iff_toNat_le.mp h.from_le
      have hlast := UInt64.le_iff_toNat_le.mp hnext
      refine ⟨h.policy, h.registry, ?_, .inr ?_, ?_⟩
      · rw [UInt64.le_iff_toNat_le]
        dsimp only
        rw [toNat_next hhead]
        omega
      · dsimp only
        rw [toNat_next hhead]
        omega
      · dsimp only at hdelivered ⊢
        rw [hdelivered, h.exact, h.policy, h.registry, toNat_next hhead,
          ← Blockchain.events_append hfirst (by omega)]

theorem upToDate_step (h : UpToDate abi start polls s) (turn : WatchTurn) :
    UpToDate abi start (polls ++ [taken (Watching.step abi) s turn]) (s.step abi turn).2 := by
  cases turn with
  | mined block =>
      obtain ⟨more, hmore⟩ := s.chain.blocks_push block
      have hextend := h.extend hmore
      exact ⟨h.policy, h.registry, h.from_le, hextend.reached, by
        rw [delivered_append]
        exact (List.append_nil _).trans hextend.exact⟩
  | poll p =>
      obtain ⟨more, hmore⟩ := s.chain.blocks_pushAll p.between
      obtain ⟨answer, hanswer, hpoll⟩ := step_poll abi s p
      exact (h.extend hmore).poll hpoll hanswer

theorem upToDate_new (abi : EventAbi) (start : EventWatcher) (chain : Blockchain) :
    UpToDate abi start [] ⟨chain, start⟩ :=
  ⟨rfl, rfl, UInt64.le_refl _, .inl rfl, (Blockchain.events_self _ chain).symm⟩

end UpToDate

end Zbacs.Onchain
