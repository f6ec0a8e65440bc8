import Zbacs.Onchain.Writer

namespace Zbacs.Onchain

open Zbacs.Lib Zbacs.Contracts

-- Whether a write that is said to have gone through has taken effect.

-- An answer that is no error means that every call went through, and nothing is remembered of one
-- that did not.
structure TakesEffect (calls : List Call) (o : Wrote) : Prop where
  executed : ∀ tx, o.result = .ok tx → o.mined = calls.map fun c => ⟨c.targetAndData, true⟩
  noted : ∀ a ∈ o.noted, a.executed = true

-- The transaction's receipt comes back.
def Passage.Delivered (p : Passage) : Prop :=
  p.sent = true ∧ p.block.isSome ∧ p.receipt.isSome

def Passage.Executes (d : Contracts.Deployment) (owner : Address) (call : Call) (w : World)
    (p : Passage) : Prop :=
  ∃ a, (p.mine d owner call.targetAndData w).1 = some a ∧ a.executed = true

-- The calls whose effect the client remembers.
def Call.note : Call → Option (Cache → Cache)
  | register .. | grant _ => none
  | bumpVersion fileId headerHash => some (Cache.putVersion fileId headerHash 0 false)
  | revoke _ grantId => some (Cache.putGrant grantId false)

-- The chain after these transactions of ours and what was mined ahead of each.
def carried (d : Contracts.Deployment) (owner : Address) : List (Call × Passage) → World → World
  | [], w => w
  | (call, p) :: rest, w => carried d owner rest (p.mine d owner call.targetAndData w).2

-- No transaction whose receipt comes back reverts, up to the first whose receipt does not; in a
-- batch with one of those, a reverted `register` or `grant` before it does no harm.
def NoneReverts (d : Contracts.Deployment) (owner : Address) (batch : List (Call × Passage))
    (w : World) : Prop :=
  ∀ pre call p post, batch = pre ++ (call, p) :: post → (∀ q ∈ pre, q.2.Delivered) → p.Delivered →
    p.Executes d owner call (carried d owner pre w) ∨
      call.note = none ∧ ∃ q ∈ post, ¬ q.2.Delivered

def Writing.NoneReverts (d : Contracts.Deployment) (owner : Address) (w : World) : Writing → Prop
  | direct call p => Onchain.NoneReverts d owner [(call, p)] w
  | directBatch batch => Onchain.NoneReverts d owner batch w
  -- the flag in the receipt is checked
  | account .. | accountBatch .. => True

section Send

variable {d : Contracts.Deployment} {owner : Address} {call : Call} {p : Passage} {s : State}

theorem write_eq : DirectWriter.write d owner call =
    ChainClient.send d owner call.targetAndData call.note := by
  cases call <;> rfl

theorem write_delivered (h : p.Delivered) : ∃ tx a,
    (p.mine d owner call.targetAndData s.world).1 = some a ∧ a.call = call.targetAndData ∧
    DirectWriter.write d owner call p s =
      ⟨.ok tx, [a], if call.note.isSome then [a] else [],
        ⟨(p.mine d owner call.targetAndData s.world).2, call.note.elim s.cache (· s.cache)⟩⟩ := by
  obtain ⟨hsent, hblock, hreceipt⟩ := h
  obtain ⟨b, hb⟩ := Option.isSome_iff_exists.mp hblock
  obtain ⟨tx, htx⟩ := Option.isSome_iff_exists.mp hreceipt
  refine ⟨tx, ⟨call.targetAndData, ((s.world.executeAll d p.ahead).attempt d owner b
    call.targetAndData).1⟩, by simp [Passage.mine, hb], rfl, ?_⟩
  rw [write_eq]
  cases hnote : call.note <;> simp [ChainClient.send, Passage.mine, hb, hsent, htx]

theorem write_undelivered (h : ¬ p.Delivered) : ∃ e, DirectWriter.write d owner call p s =
    ⟨.error e, (p.mine d owner call.targetAndData s.world).1.toList, [],
      ⟨(p.mine d owner call.targetAndData s.world).2, s.cache⟩⟩ := by
  rw [write_eq]
  cases hsent : p.sent with
  | false => exact ⟨.rejected, by simp [ChainClient.send, hsent]⟩
  | true =>
      refine ⟨.unreachable, ?_⟩
      cases hblock : p.block with
      | none => simp [ChainClient.send, Passage.mine, hsent, hblock]
      | some b =>
          cases hreceipt : p.receipt with
          | none => simp [ChainClient.send, hsent, hreceipt]
          | some tx => exact absurd ⟨hsent, by simp [hblock], by simp [hreceipt]⟩ h

end Send

section Batch

variable {d : Contracts.Deployment} {owner : Address} {call : Call} {p : Passage} {s : State}
  {rest : List (Call × Passage)} {last : TxHash}

theorem submitFrom_cons_of_error {e : ChainError}
    (h : (DirectWriter.write d owner call p s).result = .error e) :
    DirectWriter.submitFrom d owner last ((call, p) :: rest) s = DirectWriter.write d owner call p s := by
  rw [DirectWriter.submitFrom, h]

theorem submitFrom_cons_of_ok {tx : TxHash} {o : Wrote}
    (h : DirectWriter.write d owner call p s = o) (hok : o.result = .ok tx) :
    DirectWriter.submitFrom d owner last ((call, p) :: rest) s =
      { DirectWriter.submitFrom d owner tx rest o.state with
        mined := o.mined ++ (DirectWriter.submitFrom d owner tx rest o.state).mined
        noted := o.noted ++ (DirectWriter.submitFrom d owner tx rest o.state).noted } := by
  rw [DirectWriter.submitFrom, h, hok]

theorem submitFrom_singleton :
    DirectWriter.submitFrom d owner last [(call, p)] s = DirectWriter.write d owner call p s := by
  by_cases hdelivered : p.Delivered
  · obtain ⟨tx, a, -, -, hwrite⟩ := @write_delivered d owner call p s hdelivered
    rw [submitFrom_cons_of_ok hwrite rfl, hwrite]
    simp [DirectWriter.submitFrom]
  · obtain ⟨e, hwrite⟩ := @write_undelivered d owner call p s hdelivered
    exact submitFrom_cons_of_error (by rw [hwrite])

-- A batch ends well if every receipt comes back, reverted or not.
theorem submitFrom_ok_iff (batch : List (Call × Passage)) :
    (∃ tx, (DirectWriter.submitFrom d owner last batch s).result = .ok tx) ↔
      ∀ q ∈ batch, q.2.Delivered := by
  induction batch generalizing last s with
  | nil => exact ⟨fun _ q hq => absurd hq List.not_mem_nil, fun _ => ⟨last, rfl⟩⟩
  | cons q rest ih =>
      obtain ⟨call, p⟩ := q
      rw [List.forall_mem_cons]
      by_cases hdelivered : p.Delivered
      · obtain ⟨tx, a, -, -, hwrite⟩ := @write_delivered d owner call p s hdelivered
        rw [submitFrom_cons_of_ok hwrite rfl]
        exact ⟨fun h => ⟨hdelivered, ih.mp h⟩, fun h => ih.mpr h.2⟩
      · obtain ⟨e, hwrite⟩ := @write_undelivered d owner call p s hdelivered
        rw [submitFrom_cons_of_error (by rw [hwrite]), hwrite]
        exact ⟨fun ⟨_, h⟩ => absurd h (by simp), fun h => absurd h.1 hdelivered⟩

theorem noneReverts_cons_of_not (h : ¬ p.Delivered) {w : World} :
    NoneReverts d owner ((call, p) :: rest) w := by
  intro pre call' p' post hsplit hpre hdelivered
  cases pre with
  | nil =>
      obtain ⟨hfirst, -⟩ := List.cons.inj hsplit
      cases hfirst
      exact absurd hdelivered h
  | cons q pre =>
      obtain ⟨rfl, -⟩ := List.cons.inj hsplit
      exact absurd (hpre _ List.mem_cons_self) h

theorem noneReverts_cons (h : p.Delivered) {w : World} :
    NoneReverts d owner ((call, p) :: rest) w ↔
      (p.Executes d owner call w ∨ call.note = none ∧ ∃ q ∈ rest, ¬ q.2.Delivered) ∧
        NoneReverts d owner rest (p.mine d owner call.targetAndData w).2 := by
  constructor
  · intro hall
    refine ⟨hall [] call p rest rfl (fun q hq => absurd hq List.not_mem_nil) h, ?_⟩
    rintro pre call' p' post rfl hpre hdelivered
    exact hall ((call, p) :: pre) call' p' post rfl (List.forall_mem_cons.mpr ⟨h, hpre⟩) hdelivered
  · rintro ⟨hfirst, hrest⟩ pre call' p' post hsplit hpre hdelivered
    cases pre with
    | nil =>
        cases hsplit
        exact hfirst
    | cons q pre =>
        obtain ⟨rfl, htail⟩ := List.cons.inj hsplit
        exact hrest pre call' p' post htail (List.forall_mem_cons.mp hpre).2 hdelivered

-- A call that was mined, in front of the rest of a batch.
theorem takesEffect_cons {a : Attempt} (hcall : a.call = call.targetAndData) {calls : List Call}
    {more : Wrote} : TakesEffect (call :: calls) { more with
        mined := [a] ++ more.mined, noted := (if call.note.isSome then [a] else []) ++ more.noted } ↔
      (a.executed = true ∨ call.note = none ∧ ∃ e, more.result = .error e) ∧ TakesEffect calls more := by
  constructor
  · rintro ⟨hmined, hnoted⟩
    refine ⟨?_, fun tx htx => (List.cons.inj (hmined tx htx)).2, fun b hb =>
      hnoted b (List.mem_append_right _ hb)⟩
    cases hnote : call.note with
    | some note => exact .inl (hnoted a (by simp [hnote]))
    | none =>
        cases hresult : more.result with
        | error e => exact .inr ⟨rfl, e, rfl⟩
        | ok tx => exact .inl (by rw [(List.cons.inj (hmined tx hresult)).1])
  · rintro ⟨ha, hmined, hnoted⟩
    constructor
    · intro tx htx
      rcases ha with ha | ⟨-, e, herror⟩
      · rw [List.singleton_append, List.map_cons, hmined tx htx]
        exact congrArg (· :: _) (by rw [← hcall, ← ha])
      · cases htx.symm.trans herror
    · intro b hb
      rcases List.mem_append.mp hb with hb | hb
      · rcases ha with ha | ⟨hnone, -⟩
        · split_ifs at hb
          · exact List.mem_singleton.mp hb ▸ ha
          · exact absurd hb List.not_mem_nil
        · simp [hnone] at hb
      · exact hnoted b hb

theorem submitFrom_takesEffect_iff (batch : List (Call × Passage)) :
    TakesEffect (batch.map Prod.fst) (DirectWriter.submitFrom d owner last batch s) ↔
      NoneReverts d owner batch s.world := by
  induction batch generalizing last s with
  | nil =>
      refine ⟨fun _ pre call p post hsplit => absurd hsplit (by simp), fun _ => ⟨fun _ _ => rfl, ?_⟩⟩
      exact fun a ha => absurd ha List.not_mem_nil
  | cons q rest ih =>
      obtain ⟨call, p⟩ := q
      by_cases hdelivered : p.Delivered
      · obtain ⟨tx, a, hmined, hcall, hwrite⟩ := @write_delivered d owner call p s hdelivered
        rw [noneReverts_cons hdelivered, submitFrom_cons_of_ok hwrite rfl]
        have hexecutes : p.Executes d owner call s.world ↔ a.executed = true := by
          simp [Passage.Executes, hmined]
        have hends := @submitFrom_ok_iff d owner
          ⟨(p.mine d owner call.targetAndData s.world).2, call.note.elim s.cache (· s.cache)⟩ tx rest
        have hrest := @ih ⟨(p.mine d owner call.targetAndData s.world).2,
          call.note.elim s.cache (· s.cache)⟩ tx
        rw [hexecutes, ← hrest, List.map_cons, takesEffect_cons hcall]
        refine and_congr_left fun _ => or_congr_right (and_congr_right fun _ => ?_)
        have herror : (∃ e, (DirectWriter.submitFrom d owner tx rest
            ⟨(p.mine d owner call.targetAndData s.world).2,
              call.note.elim s.cache (· s.cache)⟩).result = .error e) ↔
            ¬ ∀ q ∈ rest, q.2.Delivered := by
          rw [← hends]
          cases (DirectWriter.submitFrom d owner tx rest _).result <;> simp
        rw [herror]
        push Not
        rfl
      · obtain ⟨e, hwrite⟩ := @write_undelivered d owner call p s hdelivered
        rw [submitFrom_cons_of_error (by rw [hwrite]), hwrite]
        refine ⟨fun _ => noneReverts_cons_of_not hdelivered, fun _ => ⟨?_, ?_⟩⟩
        · rintro tx ⟨⟩
        · exact fun a ha => absurd ha List.not_mem_nil

end Batch

section Account

variable {d : Contracts.Deployment} {owner : Address}

theorem sendCallData_takesEffect (calls : List Call) (op : Operation) (s : State) :
    TakesEffect calls (SmartAccountWriter.sendCallData d owner calls op s) := by
  unfold SmartAccountWriter.sendCallData
  generalize op.mine d owner (calls.map Call.targetAndData) s.world = result
  obtain ⟨success, world⟩ := result
  constructor
  · intro tx htx
    dsimp only at htx ⊢
    split at htx <;> cases htx
    simp
  · intro a ha
    dsimp only at ha
    split at ha <;> exact absurd ha List.not_mem_nil

end Account

-- What the client remembers of a call it takes to have gone through.
def remember (c : Cache) : Contracts.Call → Cache
  | .bumpVersion fileId headerHash => c.putVersion fileId headerHash 0 false
  | .revoke grantId => c.putGrant grantId false
  | .register .. | .retire _ | .grant .. | .consumeOpen .. => c

theorem write_cache (d : Contracts.Deployment) (owner : Address) (call : Call) (p : Passage) (s : State) :
    (DirectWriter.write d owner call p s).state.cache =
      (DirectWriter.write d owner call p s).noted.foldl (fun c a => remember c a.call) s.cache := by
  by_cases hdelivered : p.Delivered
  · obtain ⟨tx, a, -, hcall, hwrite⟩ := @write_delivered d owner call p s hdelivered
    rw [hwrite]
    cases call <;> simp [Call.note, hcall, Call.targetAndData, remember]
  · obtain ⟨e, hwrite⟩ := @write_undelivered d owner call p s hdelivered
    rw [hwrite]
    rfl

-- The cache holds what it held and the effects of the calls that were noted, no others.
theorem run_cache (d : Contracts.Deployment) (owner : Address) (w : Writing) (s : State) :
    (w.run d owner s).state.cache =
      (w.run d owner s).noted.foldl (fun c a => remember c a.call) s.cache := by
  have hbatch : ∀ (batch : List (Call × Passage)) last s,
      (DirectWriter.submitFrom d owner last batch s).state.cache =
        (DirectWriter.submitFrom d owner last batch s).noted.foldl
          (fun c a => remember c a.call) s.cache := by
    intro batch
    induction batch with
    | nil => exact fun _ _ => rfl
    | cons q rest ih =>
        intro last s
        cases hresult : (DirectWriter.write d owner q.1 q.2 s).result with
        | error e => rw [submitFrom_cons_of_error hresult, write_cache]
        | ok tx =>
            rw [submitFrom_cons_of_ok rfl hresult, List.foldl_append, ← write_cache]
            exact ih tx _
  have haccount : ∀ calls op, (SmartAccountWriter.sendCallData d owner calls op s).state.cache =
      (SmartAccountWriter.sendCallData d owner calls op s).noted.foldl
        (fun c a => remember c a.call) s.cache := by
    intro calls op
    unfold SmartAccountWriter.sendCallData
    dsimp only
    split <;> rfl
  cases w with
  | direct call p => exact write_cache d owner call p s
  | directBatch batch => exact hbatch batch _ s
  | account call op => exact haccount [call] op
  | accountBatch batch op =>
      cases batch with
      | nil => rfl
      | cons call rest => exact haccount (call :: rest) op

-- A write said to have gone through has taken effect, exactly if no transaction of ours reverts
-- when it is mined; what a user operation's receipt says is looked at.
theorem takesEffect_iff (d : Contracts.Deployment) (owner : Address) (w : Writing) (s : State) :
    TakesEffect w.calls (w.run d owner s) ↔ w.NoneReverts d owner s.world := by
  cases w with
  | direct call p =>
      rw [Writing.run, ← @submitFrom_singleton d owner call p s (.replicate 32 0)]
      exact submitFrom_takesEffect_iff [(call, p)]
  | directBatch batch => exact submitFrom_takesEffect_iff batch
  | account call op => exact iff_true_intro (sendCallData_takesEffect [call] op s)
  | accountBatch batch op =>
      refine iff_true_intro ?_
      cases batch with
      | nil => exact ⟨fun _ _ => rfl, fun a ha => absurd ha List.not_mem_nil⟩
      | cons call rest => exact sendCallData_takesEffect (call :: rest) op s

namespace Reference

def deployment : Contracts.Deployment := ⟨fun _ => zeroHash, 1, .zero, id⟩

def owner : Address := .replicate 20 1

def fileId : FixedBytes 32 := .replicate 32 1

def headerHash (n : UInt8) : FixedBytes 32 := .replicate 32 n

def block (timestamp : Nat) : Block := ⟨timestamp, fun _ _ _ => false, true⟩

-- The owner's file is registered.
def registered : State :=
  ⟨World.deployed.execute deployment ⟨(block 100).msg owner, .register fileId (headerHash 2)⟩, .new⟩

-- A transaction that goes out and is mined after the owner's other machine has retired the file.
def late : Passage :=
  ⟨true, [⟨(block 110).msg owner, .retire fileId⟩], some (block 110), some (.replicate 32 9)⟩

def bump : Call := .bumpVersion fileId (headerHash 3)

-- The version would be taken when it is sent and is refused when it is mined; the client says it is
-- there, and remembers it.
theorem not_takesEffect :
    reverted (registered.world.chain.transact deployment ⟨(block 110).msg owner, bump.targetAndData⟩).1 =
      false ∧
    ((Writing.direct bump late).run deployment owner registered).result = .ok (.replicate 32 9) ∧
    (((Writing.direct bump late).run deployment owner registered).state.world.chain.registry.files
      fileId).headerHash = headerHash 2 ∧
    ((Writing.direct bump late).run deployment owner registered).state.cache.versions fileId =
      some (headerHash 3, 0, false) ∧
    ¬ TakesEffect [bump] ((Writing.direct bump late).run deployment owner registered) := by
  refine ⟨by decide +kernel, by decide +kernel, by decide +kernel, by decide +kernel, fun h => ?_⟩
  have hmined := h.executed (.replicate 32 9) (by decide +kernel)
  exact absurd hmined (by decide +kernel)

end Reference

end Zbacs.Onchain
