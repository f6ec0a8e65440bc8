import Zbacs.Agent.Ledger.Runs

namespace Zbacs.Agent.Ledger

open Zbacs.Lib

-- What holds over the whole life of a ledger, and what it takes: the counters are machine words,
-- and a sum that wraps starts over.

abbrev Turned := Taken Ledger LedgerCall (Except LedgerError LedgerOut)

def nonceOf (x : Turned) : Option UInt64 := match x.output with
  | .ok (.nonce n) => some n
  | _ => none

def versionOf (key : String) (l : Ledger) : Option (UInt32 × String) :=
  (l.files.lookup key).map fun entry => (entry.ver, entry.headerHash)

-- The operation writes the file's record anew.
def Records (key : String) (op : LedgerOp) : Prop := ∃ entry, op = .record entry ∧ entry.fid = key

-- The notice names the version that is on record, and the number after it.
def Continues (l : Ledger) (fid : FixedBytes 32) (prev : String) (ver : UInt32) : Prop :=
  ∃ old, l.files.lookup (hexEncode fid.bytes) = some old ∧ old.headerHash = prev ∧
    ver.toNat = old.ver.toNat + 1

-- A version of the file was taken, as the next one of the version on record.
def Advances (key : String) (x : Turned) : Prop :=
  ∃ fid prev next ver ownerEnvelope, x.input.op = .advanceVersion fid prev next ver ownerEnvelope ∧
    hexEncode fid.bytes = key ∧ Continues x.before fid prev ver ∧
    versionOf key x.after = some (ver, next)

def deferredBy (fid : String) (x : Turned) : Option String := match x.input.op, x.output with
  | .deferBump f headerHash, .ok _ => if f = fid then some headerHash else none
  | _, _ => none

-- The last version of the file that was queued.
def lastDeferred (fid : String) (log : List Turned) : Option String :=
  (log.filterMap (deferredBy fid)).getLast?

section Parts

variable (l : Ledger)

def besideFiles := (l.grantNonce, l.grants, l.chainCursor, l.deferredBumps)
def besideGrants := (l.grantNonce, l.files, l.chainCursor, l.deferredBumps)
def besideCursor := (l.grantNonce, l.files, l.grants, l.deferredBumps)
def besideBumps := (l.grantNonce, l.files, l.grants, l.chainCursor)
def besideNonce := (l.files, l.grants, l.chainCursor, l.deferredBumps)

end Parts

-- What an operation is not about is as it was.
def Around (l l' : Ledger) : LedgerOp → Prop
  | .record entry => l'.besideFiles = l.besideFiles ∧
      ∀ key, key ≠ entry.fid → l'.files.lookup key = l.files.lookup key
  | .advanceVersion fid _ _ _ _ => l'.besideFiles = l.besideFiles ∧
      (∀ key, key ≠ hexEncode fid.bytes → l'.files.lookup key = l.files.lookup key) ∧
      ∀ old new, l.files.lookup (hexEncode fid.bytes) = some old →
        l'.files.lookup (hexEncode fid.bytes) = some new → new = { old with
          headerHash := new.headerHash, ver := new.ver, ownerEnvelope := new.ownerEnvelope }
  | .recordGrant grant => l'.besideGrants = l.besideGrants ∧
      ∀ key, key ≠ grant.grantId → l'.grants.lookup key = l.grants.lookup key
  | .markRevoked grantId _ _ => l'.besideGrants = l.besideGrants ∧
      (∀ key, key ≠ grantId → l'.grants.lookup key = l.grants.lookup key) ∧
      ∀ old new, l.grants.lookup grantId = some old → l'.grants.lookup grantId = some new →
        new = { old with revokedAt := new.revokedAt, revokeTx := new.revokeTx }
  | .setRegisteredTx fid _ => l'.besideFiles = l.besideFiles ∧
      (∀ key, key ≠ fid → l'.files.lookup key = l.files.lookup key) ∧
      ∀ old new, l.files.lookup fid = some old → l'.files.lookup fid = some new →
        new = { old with registeredTx := new.registeredTx }
  | .setChainCursor _ => l'.besideCursor = l.besideCursor
  | .deferBump fid _ => l'.besideBumps = l.besideBumps ∧
      l'.deferredBumps.filter (fun bump => bump.1 ≠ fid) =
        l.deferredBumps.filter fun bump => bump.1 ≠ fid
  | .clearDeferredBumps landed => l'.besideBumps = l.besideBumps ∧
      l'.deferredBumps.filter (fun bump => !landed.contains bump) =
        l.deferredBumps.filter fun bump => !landed.contains bump
  | .nextGrantNonce => l'.besideNonce = l.besideNonce

-- What is queued: one version of a file at most, the last that was queued.
structure Newest (log : List Turned) (l : Ledger) : Prop where
  once : (l.deferredBumps.map Prod.fst).Nodup
  last : ∀ bump ∈ l.deferredBumps, lastDeferred bump.1 log = some bump.2

structure RunKept (log : List Turned) : Prop where
  nonces : (log.filterMap nonceOf).Nodup
  moves : ∀ x ∈ log, ∀ key, versionOf key x.after ≠ versionOf key x.before →
    Records key x.input.op ∨ Advances key x
  stale : ∀ x ∈ log, ∀ fid prev next ver ownerEnvelope,
    x.input.op = .advanceVersion fid prev next ver ownerEnvelope → ¬Continues x.before fid prev ver →
      x.after = x.before
  replayed : ∀ pre x mid y post, log = pre ++ x :: (mid ++ y :: post) →
    ∀ fid prev next ver ownerEnvelope, x.input.op = .advanceVersion fid prev next ver ownerEnvelope →
      x.output.isOk → y.input.op = .advanceVersion fid prev next ver ownerEnvelope →
      (∀ z ∈ mid, ¬Records (hexEncode fid.bytes) z.input.op) → y.after = y.before
  deferred : Along (fun pre x => Newest (pre ++ [x]) x.after) log
  failed : ∀ x ∈ log, ∀ e, x.output = .error e → x.after = x.before
  around : ∀ x ∈ log, Around x.before x.after x.input.op

-- A notice with the number 0, for the version on record: that does not have the last number.
def Numbered (x : Turned) : Prop :=
  ∀ fid prev next ownerEnvelope old,
    x.input = ⟨.sound, .advanceVersion fid prev next 0 ownerEnvelope⟩ →
      x.before.files.lookup (hexEncode fid.bytes) = some old → old.headerHash = prev →
      old.ver ≠ 0xffffffff

-- No counter comes round: not more nonces than there are, and no version after the last number.
structure Unwrapped (log : List Turned) : Prop where
  nonces : (log.filter fun x => x.input = ⟨.sound, .nextGrantNonce⟩).length ≤ 2 ^ 64
  versions : ∀ x ∈ log, Numbered x

section Step

variable {l l' : Ledger} {out : LedgerOut} {op : LedgerOp} {key : String}

theorem Does.around (h : Does op l out l') : Around l l' op := by
  have hput : ∀ (entry : Entry) key, key ≠ entry.fid →
      (l.putFile entry).files.lookup key = l.files.lookup key := fun entry key hkey => by
    rw [lookup_putFile, if_neg hkey]
  have hgrant : ∀ (grant : Grant) key, key ≠ grant.grantId →
      (l.putGrant grant).grants.lookup key = l.grants.lookup key := fun grant key hkey => by
    rw [lookup_putGrant, if_neg hkey]
  cases h with
  | recorded entry => exact ⟨rfl, hput entry⟩
  | @advanced fid next ver ownerEnvelope old _ hold hver =>
      have hfid := l.fileKeyed _ _ hold
      refine ⟨rfl, fun key hkey => hput _ key (by rwa [← hfid] at hkey), fun old' new hold' hnew => ?_⟩
      rw [lookup_putFile, if_pos hfid.symm] at hnew
      cases hold.symm.trans hold'
      cases hnew
      rfl
  | granted grant => exact ⟨rfl, hgrant grant⟩
  | @revoked grantId now revokeTx old _ hold =>
      have hid := l.grantKeyed _ _ hold
      refine ⟨rfl, fun key hkey => hgrant _ key (by rwa [← hid] at hkey), fun old' new hold' hnew => ?_⟩
      rw [lookup_putGrant, if_pos hid.symm] at hnew
      cases hold.symm.trans hold'
      cases hnew
      rfl
  | @registered fid tx old _ hold =>
      have hfid := l.fileKeyed _ _ hold
      refine ⟨rfl, fun key hkey => hput _ key (by rwa [← hfid] at hkey), fun old' new hold' hnew => ?_⟩
      rw [lookup_putFile, if_pos hfid.symm] at hnew
      cases hold.symm.trans hold'
      cases hnew
      rfl
  | merged => rfl
  | deferred fid headerHash =>
      refine ⟨rfl, ?_⟩
      simp [List.filter_append, List.filter_filter]
  | cleared landed =>
      refine ⟨rfl, ?_⟩
      simp [List.filter_filter]
  | numbered => rfl

theorem around_refl (op : LedgerOp) (l : Ledger) : Around l l op := by
  cases op with
  | record | recordGrant => exact ⟨rfl, fun _ _ => rfl⟩
  | advanceVersion | markRevoked | setRegisteredTx =>
      refine ⟨rfl, fun _ _ => rfl, fun old new hold hnew => ?_⟩
      cases hold.symm.trans hnew
      rfl
  | setChainCursor | nextGrantNonce => rfl
  | deferBump | clearDeferredBumps => exact ⟨rfl, rfl⟩

-- A turn of the ledger: nothing, or what the operation is for.
theorem turned_cases (l : Ledger) (call : LedgerCall) :
    (∃ e, (taken step l call).output = .error e ∧ (taken step l call).after = l) ∨
      ∃ out, call.io = .sound ∧ (taken step l call).output = .ok out ∧
        Does call.op l out (taken step l call).after := by
  obtain ⟨e, h⟩ | ⟨out, l', hio, hdoes, h⟩ := step_cases l call
  · exact .inl ⟨e, congrArg Prod.fst h, congrArg Prod.snd h⟩
  · have hafter : (taken step l call).after = l' := congrArg Prod.snd h
    exact .inr ⟨out, hio, congrArg Prod.fst h, hafter ▸ hdoes⟩

theorem around_turned (l : Ledger) (call : LedgerCall) :
    Around l (taken step l call).after call.op := by
  obtain ⟨e, -, hsame⟩ | ⟨out, -, -, hdoes⟩ := turned_cases l call
  · rw [hsame]
    exact around_refl _ _
  · exact hdoes.around

end Step

section Nonces

-- What a counter of 64 bits hands out, `n` times.
def handed (n : Nat) : List UInt64 := (List.range n).map UInt64.ofNat

theorem nodup_handed (n : Nat) : (handed n).Nodup ↔ n ≤ 2 ^ 64 := by
  rw [handed, List.nodup_map_iff_inj_on List.nodup_range]
  constructor
  · intro h
    by_contra hlt
    have hwrap : UInt64.ofNat 0 = UInt64.ofNat (2 ^ 64) := rfl
    have := h 0 (List.mem_range.mpr (by omega)) (2 ^ 64) (List.mem_range.mpr (by omega)) hwrap
    omega
  · intro hle i hi j hj hsame
    rw [List.mem_range] at hi hj
    have hnat := congrArg UInt64.toNat hsame
    rwa [UInt64.toNat_ofNat_of_lt' (show i < 2 ^ 64 by omega),
      UInt64.toNat_ofNat_of_lt' (show j < 2 ^ 64 by omega)] at hnat

variable {l : Ledger} {call : LedgerCall}

theorem nonceOf_turned : nonceOf (taken step l call) =
    if call = ⟨.sound, .nextGrantNonce⟩ then some l.grantNonce else none := by
  obtain ⟨io, op⟩ := call
  obtain ⟨e, hout, -⟩ | ⟨out, rfl, hout, hdoes⟩ := turned_cases l ⟨io, op⟩
  · have hnot : (⟨io, op⟩ : LedgerCall) ≠ ⟨.sound, .nextGrantNonce⟩ := by
      rintro ⟨⟩
      cases hout
    rw [if_neg hnot, nonceOf, hout]
  · generalize (taken step l ⟨.sound, op⟩).after = l' at hdoes
    cases hdoes <;> simp [nonceOf, hout]

theorem grantNonce_turned : (taken step l call).after.grantNonce =
    if call = ⟨.sound, .nextGrantNonce⟩ then l.grantNonce + 1 else l.grantNonce := by
  obtain ⟨io, op⟩ := call
  obtain ⟨e, hout, hsame⟩ | ⟨out, rfl, -, hdoes⟩ := turned_cases l ⟨io, op⟩
  · have hnot : (⟨io, op⟩ : LedgerCall) ≠ ⟨.sound, .nextGrantNonce⟩ := by
      rintro ⟨⟩
      cases hout
    rw [if_neg hnot, hsame]
  · generalize (taken step l ⟨.sound, op⟩).after = l' at hdoes
    cases hdoes <;> simp [putFile, putGrant]

-- The nonces of a run are those of a counter that starts at zero.
theorem nonces_run (calls : List LedgerCall) :
    (trace step calls .empty).filterMap nonceOf =
      handed ((trace step calls .empty).filter fun x => x.input = ⟨.sound, .nextGrantNonce⟩).length := by
  refine (@trace_induct _ _ _ step (fun log l =>
    log.filterMap nonceOf = handed (log.filter fun x => x.input = ⟨.sound, .nextGrantNonce⟩).length ∧
    l.grantNonce = .ofNat (log.filter fun x => x.input = ⟨.sound, .nextGrantNonce⟩).length)
    .empty ⟨rfl, rfl⟩ ?_ calls).1
  rintro log l call ⟨hlog, hl⟩
  rw [List.filterMap_append, hlog, List.filter_append, List.length_append]
  change _ ∧ (taken step l call).after.grantNonce = _
  rw [grantNonce_turned]
  by_cases hcall : call = ⟨.sound, .nextGrantNonce⟩
  · have hnonce : nonceOf (taken step l call) = _ := nonceOf_turned
    rw [if_pos hcall] at hnonce
    rw [if_pos hcall, List.filterMap_cons_some hnonce, hl]
    simp [taken, hcall, handed, List.range_succ, UInt64.ofNat_add]
  · have hnonce : nonceOf (taken step l call) = _ := nonceOf_turned
    rw [if_neg hcall] at hnonce
    rw [if_neg hcall, List.filterMap_cons_none hnonce]
    simp [taken, hcall, hl]

end Nonces

section Versions

variable {l : Ledger} {call : LedgerCall} {key : String}

theorem toNat_next {v : UInt32} (h : v ≠ 0xffffffff) : (v + 1).toNat = v.toNat + 1 := by
  have hv := v.toNat_lt
  have hne : v.toNat ≠ 4294967295 := fun heq => h (UInt32.toNat_inj.mp heq)
  rw [UInt32.toNat_add]
  exact Nat.mod_eq_of_lt (show v.toNat + 1 < 4294967296 by omega)

theorem continues_of_next {fid : FixedBytes 32} {next : String} {ownerEnvelope : Bytes} {old : Entry}
    (h : Numbered (taken step l ⟨.sound, .advanceVersion fid old.headerHash next (old.ver + 1)
      ownerEnvelope⟩)) (hold : l.files.lookup (hexEncode fid.bytes) = some old) :
    Continues l fid old.headerHash (old.ver + 1) := by
  refine ⟨old, hold, rfl, toNat_next fun hlast => ?_⟩
  have hzero : old.ver + 1 = 0 := by rw [hlast]; rfl
  exact h fid old.headerHash next ownerEnvelope old (by rw [taken, hzero]) hold rfl hlast

theorem versionOf_putFile (entry : Entry) : versionOf key (l.putFile entry) =
    if key = entry.fid then some (entry.ver, entry.headerHash) else versionOf key l := by
  rw [versionOf, lookup_putFile]
  split_ifs <;> rfl

-- The version on record moves only where the file is recorded anew or a next version is taken.
theorem moves_turned (h : Numbered (taken step l call))
    (hmoved : versionOf key (taken step l call).after ≠ versionOf key l) :
    Records key call.op ∨ Advances key (taken step l call) := by
  obtain ⟨io, op⟩ := call
  obtain ⟨e, -, hsame⟩ | ⟨out, rfl, -, hdoes⟩ := turned_cases l ⟨io, op⟩
  · exact absurd (by rw [hsame]) hmoved
  · have hadvances : ∀ fid prev next ver ownerEnvelope,
        op = .advanceVersion fid prev next ver ownerEnvelope → hexEncode fid.bytes = key →
        Continues l fid prev ver → versionOf key (taken step l ⟨.sound, op⟩).after = some (ver, next) →
        Advances key (taken step l ⟨.sound, op⟩) :=
      fun fid prev next ver ownerEnvelope hop hkey hnext hafter =>
        ⟨fid, prev, next, ver, ownerEnvelope, hop, hkey, hnext, hafter⟩
    generalize hl' : (taken step l ⟨.sound, op⟩).after = l' at hdoes hmoved hadvances
    cases hdoes with
    | recorded entry =>
        rw [versionOf_putFile] at hmoved
        split_ifs at hmoved with hkey
        · exact .inl ⟨entry, rfl, hkey.symm⟩
        · exact absurd rfl hmoved
    | @advanced fid next ver ownerEnvelope old _ hold hver =>
        subst hver
        have hfid := l.fileKeyed _ _ hold
        rw [versionOf_putFile] at hmoved
        split_ifs at hmoved with hkey
        · refine .inr (hadvances fid _ next _ ownerEnvelope rfl (hfid.symm.trans hkey.symm)
            (continues_of_next h hold) ?_)
          rw [versionOf_putFile, if_pos hkey]
        · exact absurd rfl hmoved
    | @registered fid tx old _ hold =>
        rw [versionOf_putFile] at hmoved
        split_ifs at hmoved with hkey
        · have hfid : old.fid = fid := l.fileKeyed _ _ hold
          refine absurd ?_ hmoved
          rw [versionOf, hkey, hfid, hold]
          rfl
        · exact absurd rfl hmoved
    | granted | revoked | merged | deferred | cleared | numbered => exact absurd rfl hmoved

theorem stale_turned {fid : FixedBytes 32} {prev next : String} {ver : UInt32} {ownerEnvelope : Bytes}
    (h : Numbered (taken step l call)) (hop : call.op = .advanceVersion fid prev next ver ownerEnvelope)
    (hstale : ¬Continues l fid prev ver) : (taken step l call).after = l := by
  obtain ⟨io, op⟩ := call
  obtain rfl : op = _ := hop
  obtain ⟨e, -, hsame⟩ | ⟨out, rfl, -, hdoes⟩ := turned_cases l ⟨io, _⟩
  · exact hsame
  · generalize (taken step l ⟨.sound, _⟩).after = l' at hdoes
    cases hdoes with
    | advanced hold hver =>
        subst hver
        exact absurd (continues_of_next h hold) hstale

-- From one recording of a file to the next its number only goes up.
theorem versionOf_final {v : UInt32 × String} {calls : List LedgerCall}
    (h : ∀ x ∈ trace step calls l, Numbered x)
    (hrecords : ∀ x ∈ trace step calls l, ¬Records key x.input.op) (hv : versionOf key l = some v) :
    ∃ v', versionOf key (final step calls l) = some v' ∧ v.1.toNat ≤ v'.1.toNat := by
  induction calls generalizing l v with
  | nil => exact ⟨v, hv, Nat.le_refl _⟩
  | cons call calls ih =>
      rw [trace, List.forall_mem_cons] at h hrecords
      by_cases hmoved : versionOf key (taken step l call).after = versionOf key l
      · exact ih h.2 hrecords.2 (hmoved.trans hv)
      · rcases moves_turned h.1 hmoved with hrecord | ⟨fid, prev, next, ver, _, -, hkey, hnext, hafter⟩
        · exact absurd hrecord hrecords.1
        · obtain ⟨old, hold, -, hver⟩ := hnext
          obtain ⟨v', hv', hle⟩ := ih h.2 hrecords.2 hafter
          rw [versionOf, ← hkey, show l.files.lookup (hexEncode fid.bytes) = some old from hold] at hv
          cases hv
          exact ⟨v', hv', (Nat.le_of_lt (Nat.lt_of_succ_le (hver.symm.le.trans hle)))⟩

end Versions

section Deferred

theorem lastDeferred_concat (fid : String) (log : List Turned) (x : Turned) :
    lastDeferred fid (log ++ [x]) = (deferredBy fid x).or (lastDeferred fid log) := by
  rw [lastDeferred, List.filterMap_append]
  cases h : deferredBy fid x with
  | none => rw [List.filterMap_cons_none h, List.filterMap_nil, List.append_nil]; rfl
  | some headerHash =>
      rw [List.filterMap_cons_some h, List.filterMap_nil, List.getLast?_append]
      rfl

-- A call that fails queues nothing.
theorem deferredBy_of_error {x : Turned} {e : LedgerError} (h : x.output = .error e) (key : String) :
    deferredBy key x = none := by
  unfold deferredBy
  split
  · rename_i hok
    cases h.symm.trans hok
  · rfl

theorem deferredBy_of_ne {x : Turned} (h : ∀ fid headerHash, x.input.op ≠ .deferBump fid headerHash)
    (key : String) : deferredBy key x = none := by
  unfold deferredBy
  split
  · rename_i f headerHash _ hinput _
    exact absurd hinput (h f headerHash)
  · rfl

-- What stays in the queue is still the newest, unless another is queued.
theorem Newest.kept {log : List Turned} {l l' : Ledger} (h : Newest log l) {x : Turned}
    (hsub : l'.deferredBumps.Sublist l.deferredBumps)
    (hnone : ∀ bump ∈ l'.deferredBumps, deferredBy bump.1 x = none) : Newest (log ++ [x]) l' where
  once := h.once.sublist (hsub.map _)
  last bump hbump := by
    rw [lastDeferred_concat, hnone bump hbump]
    exact h.last bump (hsub.subset hbump)

theorem Newest.queued {log : List Turned} {l : Ledger} (h : Newest log l) {x : Turned}
    {fid headerHash : String} (hby : ∀ key, deferredBy key x = if fid = key then some headerHash else none) :
    Newest (log ++ [x])
      { l with deferredBumps := l.deferredBumps.filter (·.1 ≠ fid) ++ [(fid, headerHash)] } where
  once := by
    rw [List.map_append, List.map_cons, List.map_nil, List.nodup_append]
    refine ⟨h.once.sublist (List.filter_sublist.map _), List.nodup_singleton _, ?_⟩
    simp
  last bump hbump := by
    rw [lastDeferred_concat, hby]
    rcases List.mem_append.mp hbump with hold | hnew
    · obtain ⟨hmem, hne⟩ := List.mem_filter.mp hold
      rw [if_neg fun heq => by simp [heq] at hne]
      exact h.last bump hmem
    · obtain rfl := List.mem_singleton.mp hnew
      rw [if_pos rfl]
      rfl

theorem Newest.turned {log : List Turned} {l : Ledger} (h : Newest log l) (call : LedgerCall) :
    Newest (log ++ [taken step l call]) (taken step l call).after := by
  obtain ⟨io, op⟩ := call
  obtain ⟨e, hout, hsame⟩ | ⟨out, rfl, hout, hdoes⟩ := turned_cases l ⟨io, op⟩
  · exact h.kept (by rw [hsame]) fun _ _ => deferredBy_of_error hout _
  · have hnot : (∀ fid headerHash, op ≠ .deferBump fid headerHash) → ∀ key,
        deferredBy key (taken step l ⟨.sound, op⟩) = none :=
      fun hop key => deferredBy_of_ne hop key
    have hby : ∀ fid headerHash, op = .deferBump fid headerHash → ∀ key,
        deferredBy key (taken step l ⟨.sound, op⟩) = if fid = key then some headerHash else none := by
      rintro fid headerHash rfl key
      rw [deferredBy, hout]
      rfl
    generalize (taken step l ⟨.sound, op⟩).after = l' at hdoes
    cases hdoes with
    | deferred fid headerHash => exact h.queued (hby fid headerHash rfl)
    | cleared landed =>
        exact h.kept List.filter_sublist fun bump _ => hnot (fun _ _ => LedgerOp.noConfusion) _
    | recorded | advanced | granted | revoked | registered | merged | numbered =>
        exact h.kept (List.Sublist.refl _) fun bump _ => hnot (fun _ _ => LedgerOp.noConfusion) _

end Deferred

section Run

variable {calls : List LedgerCall}

theorem RunKept.unwrapped (h : RunKept (trace step calls .empty)) :
    Unwrapped (trace step calls .empty) := by
  refine ⟨(nodup_handed _).mp (nonces_run calls ▸ h.nonces), ?_⟩
  rintro x hx fid prev next ownerEnvelope old hinput hold hprev hlast
  obtain ⟨before, call, after, -, rfl⟩ := exists_of_mem_trace hx
  generalize final step before .empty = l at hx hold
  obtain rfl : call = _ := hinput
  change l.files.lookup _ = _ at hold
  have hnext : advanceVersion .sound fid prev next 0 ownerEnvelope l = (.ok _, _) :=
    advanceVersion_eq_ok.mpr ⟨rfl, old, hold, hprev, by rw [hlast]; rfl, rfl, rfl⟩
  have hbefore : versionOf (hexEncode fid.bytes) l = some (old.ver, old.headerHash) := by
    rw [versionOf, hold]
    rfl
  have hafter : versionOf (hexEncode fid.bytes)
      (taken step l ⟨.sound, .advanceVersion fid prev next 0 ownerEnvelope⟩).after = some (0, next) := by
    simp only [taken, step, hnext, Prod.map, id]
    rw [versionOf_putFile, if_pos (l.fileKeyed _ _ hold).symm]
  have hmoved : versionOf (hexEncode fid.bytes)
      (taken step l ⟨.sound, .advanceVersion fid prev next 0 ownerEnvelope⟩).after ≠
        versionOf (hexEncode fid.bytes) l := by
    rw [hafter, hbefore, hlast]
    simp
  rcases h.moves _ hx _ hmoved with ⟨entry, hop, -⟩ | ⟨fid', prev', next', ver, _, hop, -, hcontinues, -⟩
  · cases hop
  · cases hop
    obtain ⟨old', hold', -, hver⟩ := hcontinues
    exact absurd hver.symm (Nat.succ_ne_zero _)

-- What was taken once is not the next version again, before the file is recorded anew.
theorem replayed_turned (h : ∀ x ∈ trace step calls .empty, Numbered x) {pre mid post : List Turned}
    {x y : Turned} (hlog : trace step calls .empty = pre ++ x :: (mid ++ y :: post))
    {fid : FixedBytes 32} {prev next : String} {ver : UInt32} {ownerEnvelope : Bytes}
    (hx : x.input.op = .advanceVersion fid prev next ver ownerEnvelope) (hok : x.output.isOk)
    (hy : y.input.op = .advanceVersion fid prev next ver ownerEnvelope)
    (hmid : ∀ z ∈ mid, ¬Records (hexEncode fid.bytes) z.input.op) : y.after = y.before := by
  rw [hlog] at h
  have hxn := h x (List.mem_append_right _ List.mem_cons_self)
  have hmidn : ∀ z ∈ mid, Numbered z := fun z hz =>
    h z (List.mem_append_right _ (List.mem_cons_of_mem _ (List.mem_append_left _ hz)))
  have hyn := h y (List.mem_append_right _ (List.mem_cons_of_mem _
    (List.mem_append_right _ List.mem_cons_self)))
  obtain ⟨before, call, after, -, -, rfl, hrest⟩ := trace_eq_append_cons hlog
  obtain ⟨between, call', after', -, rfl, rfl, -⟩ := trace_eq_append_cons hrest.symm
  refine stale_turned hyn hy ?_
  rintro ⟨old, hold, -, hver⟩
  have htaken : versionOf (hexEncode fid.bytes) (taken step (final step before .empty) call).after =
      some (ver, next) := by
    obtain ⟨io, op⟩ := call
    obtain rfl : op = _ := hx
    obtain ⟨e, hout, -⟩ | ⟨out, rfl, -, hdoes⟩ := turned_cases (final step before .empty) ⟨io, _⟩
    · rw [hout] at hok
      cases hok
    · generalize (taken step (final step before .empty) ⟨.sound, _⟩).after = l' at hdoes
      cases hdoes with
      | advanced hold =>
          rw [versionOf_putFile, if_pos (Ledger.fileKeyed _ _ _ hold).symm]
  obtain ⟨v', hv', hle⟩ := versionOf_final hmidn hmid htaken
  have hold' : versionOf (hexEncode fid.bytes)
      (final step between (taken step (final step before .empty) call).after) =
        some (old.ver, old.headerHash) := congrArg (Option.map _) hold
  cases hv'.symm.trans hold'
  exact absurd hver (Nat.ne_of_lt (Nat.lt_succ_of_le hle))

-- Everything that is promised of a ledger's life, exactly as long as no counter comes round.
theorem run_kept_iff (calls : List LedgerCall) :
    RunKept (trace step calls .empty) ↔ Unwrapped (trace step calls .empty) := by
  refine ⟨RunKept.unwrapped, fun h => ?_⟩
  have hturned : ∀ x ∈ trace step calls .empty, ∃ l call, x = taken step l call := fun x hx => by
    obtain ⟨before, call, after, -, hx⟩ := exists_of_mem_trace hx
    exact ⟨_, call, hx⟩
  constructor
  case nonces =>
    rw [nonces_run]
    exact (nodup_handed _).mpr h.nonces
  case moves =>
    intro x hx key hmoved
    have hnumbered := h.versions x hx
    obtain ⟨l, call, rfl⟩ := hturned x hx
    exact moves_turned hnumbered hmoved
  case stale =>
    intro x hx fid prev next ver ownerEnvelope hop hstale
    have hnumbered := h.versions x hx
    obtain ⟨l, call, rfl⟩ := hturned x hx
    exact stale_turned hnumbered hop hstale
  case replayed =>
    intro pre x mid y post hlog fid prev next ver ownerEnvelope hx hok hy hmid
    exact replayed_turned h.versions hlog hx hok hy hmid
  case deferred =>
    have hempty : Newest [] .empty := ⟨List.nodup_nil, fun _ h => absurd h List.not_mem_nil⟩
    refine trace_along hempty (fun log l call hnewest _ => ?_) calls fun _ _ _ _ => trivial
    exact ⟨hnewest.turned call, hnewest.turned call⟩
  case failed =>
    intro x hx e hout
    obtain ⟨l, call, rfl⟩ := hturned x hx
    exact step_error (Prod.ext hout rfl)
  case around =>
    intro x hx
    obtain ⟨l, call, rfl⟩ := hturned x hx
    exact around_turned l call

-- A record with the last number, and a notice for it with the number 0.
def lastEntry : Entry :=
  { fid := hexEncode (FixedBytes.replicate 32 1).bytes
    headerHash := "0a"
    name := "file-1.docx"
    path := ["tmp", "file-1.docx.zbacs"]
    permission := .edit
    ttl := 3600
    maxOpens := 1
    sealedAt := 10
    ver := 0xffffffff
    ownerEnvelope := none
    registeredTx := none }

def comesRound : List LedgerCall :=
  [⟨.sound, .record lastEntry⟩, ⟨.sound, .advanceVersion (.replicate 32 1) "0a" "0b" 0 []⟩]

theorem not_run_kept : ¬RunKept (trace step comesRound .empty) := by
  intro h
  have hnumbered := h.unwrapped.versions _ (List.mem_cons_of_mem _ List.mem_cons_self)
  exact hnumbered (.replicate 32 1) "0a" "0b" [] lastEntry rfl (AList.lookup_insert _) rfl rfl

end Run

end Zbacs.Agent.Ledger
