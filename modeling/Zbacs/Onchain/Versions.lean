import Zbacs.Contracts.Chain.Files
import Zbacs.Onchain.Offline
import Zbacs.Onchain.Writer.Landing

namespace Zbacs.Onchain

open Zbacs.Lib Zbacs.Contracts

-- What the client remembers of the versions of files, and what the registry said of them.

abbrev VersionRecord := FixedBytes 32 × UInt32 × Bool

-- `Cache::version` of an entry that was put at this time.
def Cache.version (fileId : FixedBytes 32) (takenAt tolerance now : Nat) (c : Cache) :
    Option (Offline.Cached VersionRecord) :=
  (c.versions fileId).map fun value =>
    let age := now - takenAt
    ⟨value, if age ≤ tolerance then .fresh else .stale, age⟩

-- A question to the node: what is mined before it is answered, whether the answer comes back, and
-- what is mined until then.
structure VersionRead where
  ahead : List Tx
  reached : Bool
  behind : List Tx

def ChainClient.currentVersion (d : Contracts.Deployment) (fileId : FixedBytes 32) (q : VersionRead)
    (s : State) : Except ChainError VersionRecord × State :=
  let asked := s.world.executeAll d q.ahead
  let out := asked.chain.registry.currentVersion fileId
  if q.reached then
    (.ok out, ⟨asked.executeAll d q.behind, s.cache.putVersion fileId out.1 out.2.1 out.2.2⟩)
  else (.error .unreachable, ⟨asked.executeAll d q.behind, s.cache⟩)

-- The client's calls, each with how it fares, and what others do in between.
inductive ClientCall where
  | currentVersion (fileId : FixedBytes 32) (q : VersionRead)
  | registerFile (fileId headerHash : FixedBytes 32) (p : Passage)
  | bumpVersion (fileId newHeaderHash : FixedBytes 32) (p : Passage)
  | retire (fileId : FixedBytes 32) (p : Passage)
  | others (txs : List Tx)

def ClientCall.run (d : Contracts.Deployment) (owner : Address) (s : State) : ClientCall → State
  | currentVersion fileId q => (ChainClient.currentVersion d fileId q s).2
  | registerFile fileId headerHash p => (ChainClient.registerFile d owner fileId headerHash p s).state
  | bumpVersion fileId newHeaderHash p =>
      (ChainClient.bumpVersion d owner fileId newHeaderHash p s).state
  | retire fileId p => (ChainClient.retire d owner fileId p s).state
  | others txs => { s with world := s.world.executeAll d txs }

def ClientCall.runAll (d : Contracts.Deployment) (owner : Address) (calls : List ClientCall) : State :=
  calls.foldl (ClientCall.run d owner) ⟨.deployed, .new⟩

-- Every state the contracts have been in.
def World.moments (w : World) : List Chain := .deployed :: w.log.map Taken.after

-- `FileRegistry.currentVersion` was this at some moment.
def World.Had (fileId : FixedBytes 32) (r : VersionRecord) (w : World) : Prop :=
  ∃ c ∈ w.moments, c.registry.currentVersion fileId = r

-- Where an entry comes from: from an answer, or from a new version whose receipt came back.
inductive EntrySource where
  | answered
  | bumped (newHeaderHash : FixedBytes 32)
deriving DecidableEq

def ClientCall.puts (fileId : FixedBytes 32) : ClientCall → Option EntrySource
  | currentVersion id q => if id = fileId ∧ q.reached then some .answered else none
  | bumpVersion id newHeaderHash p =>
      if id = fileId ∧ p.Delivered then some (.bumped newHeaderHash) else none
  | registerFile .. | retire .. | others _ => none

-- The last call that put the file's entry.
def entrySource (fileId : FixedBytes 32) (calls : List ClientCall) : Option EntrySource :=
  calls.foldl (fun last call => (call.puts fileId).or last) none

section World

variable {d : Contracts.Deployment} {w : World} {fileId : FixedBytes 32} {r : VersionRecord}

theorem World.executeAll_append (txs rest : List Tx) :
    w.executeAll d (txs ++ rest) = (w.executeAll d txs).executeAll d rest := List.foldl_append

theorem mine_world (sender : Address) (call : Contracts.Call) (p : Passage) :
    ∃ txs, (p.mine d sender call w).2 = w.executeAll d txs := by
  unfold Passage.mine
  cases p.block with
  | none => exact ⟨p.ahead, rfl⟩
  | some b =>
      dsimp only
      unfold World.attempt
      split_ifs
      · refine ⟨p.ahead ++ [⟨b.msg sender, call⟩], ?_⟩
        rw [World.executeAll_append]
        rfl
      · exact ⟨p.ahead, rfl⟩

-- The contracts are in the last of the states they have been in, and a version is counted from one.
structure World.Lawful (w : World) : Prop where
  current : w.chain ∈ w.moments
  numbered : ∀ c ∈ w.moments, ∀ id, (c.registry.files id).version = 0 →
    (c.registry.files id).headerHash = zeroHash

theorem lawful_deployed : World.deployed.Lawful := by
  refine ⟨List.mem_cons_self, fun c hc id _ => ?_⟩
  rw [List.mem_singleton.mp hc]
  rfl

theorem fileStep_numbered {f f' : FileRecord} {tx : Tx} {registration bump : Option (FixedBytes 32)}
    (hf : f.version = 0 → f.headerHash = zeroHash) (h : FileStep f tx registration bump f') :
    f'.version = 0 → f'.headerHash = zeroHash := by
  cases h with
  | kept | retired => exact hf
  | registered => exact fun hzero => absurd hzero (by simp)
  | bumped _ _ _ _ _ hbound =>
      intro hzero
      have hnext := congrArg UInt32.toNat hzero
      rw [UInt32.toNat_add, UInt32.toNat_one, Nat.mod_eq_of_lt hbound] at hnext
      cases hnext

theorem moments_execute (tx : Tx) :
    (w.execute d tx).moments = w.moments ++ [(w.execute d tx).chain] := by
  rw [World.moments, World.execute, List.map_append, ← List.cons_append]
  rfl

theorem World.Lawful.execute (h : w.Lawful) (tx : Tx) : (w.execute d tx).Lawful := by
  refine ⟨?_, fun c hc id => ?_⟩
  · rw [moments_execute]
    exact List.mem_append_right _ List.mem_cons_self
  · rw [moments_execute] at hc
    rcases List.mem_append.mp hc with hc | hc
    · exact h.numbered c hc id
    · rw [List.mem_singleton.mp hc]
      exact fileStep_numbered (h.numbered _ h.current id) (transact_step d w.chain tx id)

theorem World.Lawful.executeAll (h : w.Lawful) (txs : List Tx) : (w.executeAll d txs).Lawful := by
  induction txs generalizing w with
  | nil => exact h
  | cons tx txs ih => exact ih (h.execute tx)

-- What was said once stays said.
theorem World.Had.executeAll (h : w.Had fileId r) (txs : List Tx) :
    (w.executeAll d txs).Had fileId r := by
  induction txs generalizing w with
  | nil => exact h
  | cons tx txs ih =>
      obtain ⟨c, hc, hr⟩ := h
      refine ih ⟨c, ?_, hr⟩
      rw [moments_execute]
      exact List.mem_append_left _ hc

-- No file has a version that is not counted, but before it is registered.
theorem World.Lawful.had_iff (h : w.Lawful) (headerHash : FixedBytes 32) :
    w.Had fileId (headerHash, 0, false) ↔ headerHash = zeroHash := by
  constructor
  · rintro ⟨c, hc, hr⟩
    unfold FileRegistry.currentVersion at hr
    simp only [Prod.mk.injEq] at hr
    rw [← hr.1]
    exact h.numbered c hc fileId hr.2.1
  · rintro rfl
    exact ⟨.deployed, List.mem_cons_self, rfl⟩

end World

section Calls

variable {d : Contracts.Deployment} {owner : Address} {s : State} {fileId : FixedBytes 32}
  {call : Contracts.Call} {note : Option (Cache → Cache)} {p : Passage}

theorem send_world : (ChainClient.send d owner call note p s).state.world =
    (p.mine d owner call s.world).2 := by
  unfold ChainClient.send Passage.mine
  cases p.sent <;> cases p.block <;> cases p.receipt <;> cases note <;> rfl

-- A write is noted if its receipt comes back.
theorem send_cache : (ChainClient.send d owner call note p s).state.cache =
    if p.Delivered then note.elim s.cache (· s.cache) else s.cache := by
  obtain ⟨sent, ahead, block, receipt⟩ := p
  cases sent <;> cases block <;> cases receipt <;> cases note <;> rfl

theorem send_unnoted : (ChainClient.send d owner call none p s).state.cache = s.cache := by
  rw [send_cache, Option.elim_none, ite_self]

theorem run_world (c : ClientCall) :
    ∃ txs, (c.run d owner s).world = s.world.executeAll d txs := by
  cases c with
  | currentVersion id q =>
      refine ⟨q.ahead ++ q.behind, ?_⟩
      rw [World.executeAll_append]
      unfold ClientCall.run ChainClient.currentVersion
      dsimp only
      split_ifs <;> rfl
  | registerFile id headerHash p => exact send_world ▸ mine_world ..
  | bumpVersion id newHeaderHash p => exact send_world ▸ mine_world ..
  | retire id p => exact send_world ▸ mine_world ..
  | others txs => exact ⟨txs, rfl⟩

-- An entry is as its source has it.
def EntrySource.Tells (fileId : FixedBytes 32) (s : State) : Option EntrySource → Prop
  | none => s.cache.versions fileId = none
  | some .answered => ∃ r, s.cache.versions fileId = some r ∧ s.world.Had fileId r
  | some (.bumped newHeaderHash) => s.cache.versions fileId = some (newHeaderHash, 0, false)

theorem EntrySource.Tells.kept {source : Option EntrySource} {s' : State} {txs : List Tx}
    (h : EntrySource.Tells fileId s source) (hworld : s'.world = s.world.executeAll d txs)
    (hcache : s'.cache.versions fileId = s.cache.versions fileId) :
    EntrySource.Tells fileId s' source := by
  cases source with
  | none => exact hcache.trans h
  | some source => cases source with
    | answered =>
        obtain ⟨r, hr, hhad⟩ := h
        refine ⟨r, hcache.trans hr, ?_⟩
        rw [hworld]
        exact hhad.executeAll txs
    | bumped newHeaderHash => exact hcache.trans h

-- A call that does not put the file's entry leaves it.
theorem versions_run_of_puts_none (c : ClientCall) (h : c.puts fileId = none) :
    (c.run d owner s).cache.versions fileId = s.cache.versions fileId := by
  cases c with
  | currentVersion id q =>
      rw [ClientCall.puts, ite_eq_right_iff] at h
      unfold ClientCall.run ChainClient.currentVersion
      dsimp only
      split_ifs with hreached
      · have hid : fileId ≠ id := fun hid => nomatch h ⟨hid.symm, hreached⟩
        exact Function.update_of_ne hid ..
      · rfl
  | registerFile id headerHash p => exact congrFun (congrArg Cache.versions send_unnoted) fileId
  | bumpVersion id newHeaderHash p =>
      have hcache : ((ClientCall.bumpVersion id newHeaderHash p).run d owner s).cache = _ := send_cache
      rw [ClientCall.puts, ite_eq_right_iff] at h
      rw [hcache]
      split_ifs with hdelivered
      · have hid : fileId ≠ id := fun hid => nomatch h ⟨hid.symm, hdelivered⟩
        exact Function.update_of_ne hid ..
      · rfl
  | retire id p => exact congrFun (congrArg Cache.versions send_unnoted) fileId
  | others txs => rfl

-- An answer is what the registry said when it was asked.
theorem tells_answered (hlawful : s.world.Lawful) (c : ClientCall) (h : c.puts fileId = some .answered) :
    EntrySource.Tells fileId (c.run d owner s) (some .answered) := by
  cases c with
  | currentVersion id q =>
      rw [ClientCall.puts, Option.ite_none_right_eq_some] at h
      obtain ⟨⟨rfl, hreached⟩, -⟩ := h
      have hasked := (hlawful.executeAll (d := d) q.ahead).current
      have hhad : (s.world.executeAll d q.ahead).Had id
          ((s.world.executeAll d q.ahead).chain.registry.currentVersion id) := ⟨_, hasked, rfl⟩
      refine ⟨(s.world.executeAll d q.ahead).chain.registry.currentVersion id, ?_, ?_⟩
      · simp [ClientCall.run, ChainClient.currentVersion, hreached, Cache.putVersion]
      · simpa [ClientCall.run, ChainClient.currentVersion, hreached] using hhad.executeAll q.behind
  | bumpVersion id newHeaderHash p =>
      rw [ClientCall.puts, Option.ite_none_right_eq_some] at h
      exact nomatch h.2
  | registerFile | retire | others => cases h

theorem tells_bumped {newHeaderHash : FixedBytes 32} (c : ClientCall)
    (h : c.puts fileId = some (.bumped newHeaderHash)) :
    EntrySource.Tells fileId (c.run d owner s) (some (.bumped newHeaderHash)) := by
  cases c with
  | currentVersion id q =>
      rw [ClientCall.puts, Option.ite_none_right_eq_some] at h
      exact nomatch h.2
  | bumpVersion id headerHash p =>
      rw [ClientCall.puts, Option.ite_none_right_eq_some] at h
      obtain ⟨⟨rfl, hdelivered⟩, hsame⟩ := h
      obtain rfl := EntrySource.bumped.inj (Option.some.inj hsame)
      have hcache : ((ClientCall.bumpVersion id headerHash p).run d owner s).cache = _ := send_cache
      rw [if_pos hdelivered] at hcache
      exact (congrFun (congrArg Cache.versions hcache) id).trans (Function.update_self ..)
  | registerFile | retire | others => cases h

theorem tells_run {source : Option EntrySource} (hlawful : s.world.Lawful)
    (h : EntrySource.Tells fileId s source) (c : ClientCall) :
    EntrySource.Tells fileId (c.run d owner s) ((c.puts fileId).or source) := by
  cases hputs : c.puts fileId with
  | none =>
      obtain ⟨txs, hworld⟩ := @run_world d owner s c
      exact h.kept hworld (versions_run_of_puts_none c hputs)
  | some put => cases put with
    | answered => exact tells_answered hlawful c hputs
    | bumped newHeaderHash => exact tells_bumped c hputs

theorem tells_runAll (d : Contracts.Deployment) (owner : Address) (calls : List ClientCall)
    (fileId : FixedBytes 32) :
    (ClientCall.runAll d owner calls).world.Lawful ∧
      EntrySource.Tells fileId (ClientCall.runAll d owner calls) (entrySource fileId calls) := by
  induction calls using List.reverseRecOn with
  | nil => exact ⟨lawful_deployed, rfl⟩
  | append_singleton calls c ih =>
      obtain ⟨hlawful, htells⟩ := ih
      rw [ClientCall.runAll, entrySource, List.foldl_append, List.foldl_append]
      refine ⟨?_, tells_run hlawful htells c⟩
      obtain ⟨txs, hworld⟩ := @run_world d owner (ClientCall.runAll d owner calls) c
      exact hworld ▸ hlawful.executeAll txs

-- The version of a file that is remembered is one that the registry had, exactly if its entry does
-- not come from a new version of the client's own; but for one without a header hash, which the
-- registry never takes.
theorem version_real_iff (d : Contracts.Deployment) (owner : Address) (calls : List ClientCall)
    (fileId : FixedBytes 32) (takenAt tolerance now : Nat) (cached : Offline.Cached VersionRecord)
    (h : (ClientCall.runAll d owner calls).cache.version fileId takenAt tolerance now = some cached) :
    (ClientCall.runAll d owner calls).world.Had fileId cached.value ↔
      ∀ newHeaderHash, entrySource fileId calls = some (.bumped newHeaderHash) →
        newHeaderHash = zeroHash := by
  obtain ⟨hlawful, htells⟩ := tells_runAll d owner calls fileId
  obtain ⟨r, hentry, rfl⟩ := Option.map_eq_some_iff.mp h
  dsimp only
  cases hsource : entrySource fileId calls with
  | none =>
      rw [hsource] at htells
      cases hentry.symm.trans htells
  | some source => cases source with
    | answered =>
        rw [hsource] at htells
        obtain ⟨r', hr', hhad⟩ := htells
        obtain rfl := Option.some.inj (hentry.symm.trans hr')
        exact iff_of_true hhad fun _ hbumped => by cases hbumped
    | bumped headerHash =>
        rw [hsource] at htells
        obtain rfl := Option.some.inj (hentry.symm.trans htells)
        rw [hlawful.had_iff]
        exact ⟨fun hzero _ hbumped => by cases hbumped; exact hzero, fun hall => hall _ rfl⟩

end Calls

namespace Reference

-- The owner registers a file, seals a new version of it, and reads it back after that or not.

def delivered (timestamp : Nat) : Passage :=
  ⟨true, [], some (block timestamp), some (.replicate 32 9)⟩

def resealed : List ClientCall :=
  [.registerFile fileId (headerHash 2) (delivered 100),
    .bumpVersion fileId (headerHash 3) (delivered 110)]

def readBack : List ClientCall := resealed ++ [.currentVersion fileId ⟨[], true, []⟩]

theorem readBack_real :
    (ClientCall.runAll deployment owner readBack).cache.version fileId 0 60 30 =
      some ⟨(headerHash 3, 2, false), .fresh, 30⟩ ∧
    (ClientCall.runAll deployment owner readBack).world.Had fileId (headerHash 3, 2, false) := by
  have hcached : (ClientCall.runAll deployment owner readBack).cache.version fileId 0 60 30 =
      some ⟨(headerHash 3, 2, false), .fresh, 30⟩ := by decide +kernel
  refine ⟨hcached, (version_real_iff deployment owner readBack fileId 0 60 30 _ hcached).mpr ?_⟩
  have hsource : entrySource fileId readBack = some .answered := by decide +kernel
  intro newHeaderHash hbumped
  rw [hsource] at hbumped
  cases hbumped

theorem not_version_real : ¬∀ d owner calls fileId takenAt tolerance now cached,
    (ClientCall.runAll d owner calls).cache.version fileId takenAt tolerance now = some cached →
      (ClientCall.runAll d owner calls).world.Had fileId cached.value := by
  intro h
  have hcached : (ClientCall.runAll deployment owner resealed).cache.version fileId 0 60 30 =
      some ⟨(headerHash 3, 0, false), .fresh, 30⟩ := by decide +kernel
  have hhad := h deployment owner resealed fileId 0 60 30 _ hcached
  have hlawful := (tells_runAll deployment owner resealed fileId).1
  exact absurd ((hlawful.had_iff _).mp hhad) (by decide +kernel)

end Reference

end Zbacs.Onchain
