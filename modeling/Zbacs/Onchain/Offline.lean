import Zbacs.Contracts.Chain.Grants
import Zbacs.Onchain.Client

namespace Zbacs.Onchain.Offline

open Zbacs.Lib Zbacs.Contracts

-- The grant half of the cache with the times it keeps, and the two queries that use it. Instants
-- and durations are nanoseconds.

inductive Freshness where
  | fresh
  | stale
deriving DecidableEq, Repr

-- A remembered answer.
structure Cached (α : Type) where
  value : α
  freshness : Freshness
  age : Nat
deriving DecidableEq

structure Entry (α : Type) where
  value : α
  takenAt : Nat
deriving DecidableEq

structure Cache where
  grants : FixedBytes 32 → Option (Entry Bool)

namespace Cache

def new : Cache := ⟨fun _ => none⟩

-- Never resurrects a dead grant.
def putGrant (grantId : FixedBytes 32) (valid : Bool) (now : Nat) (c : Cache) : Cache :=
  if (c.grants grantId).any (fun existing => !existing.value) && valid then c
  else ⟨Function.update c.grants grantId (some ⟨valid, now⟩)⟩

def grant (grantId : FixedBytes 32) (tolerance now : Nat) (c : Cache) : Option (Cached Bool) :=
  (c.grants grantId).map fun e =>
    let age := now - e.takenAt
    ⟨e.value, if age ≤ tolerance then .fresh else .stale, age⟩

-- What is left of it when the times are forgotten.
def values (c : Cache) (grantId : FixedBytes 32) : Option Bool := (c.grants grantId).map Entry.value

section

variable {c : Cache} {grantId : FixedBytes 32} {valid : Bool} {now : Nat}

-- A grant that was seen dead keeps its entry when the answer is yes, and no other does.
theorem putGrant_grants :
    (c.putGrant grantId valid now).grants grantId = some ⟨valid, now⟩ ∨
      (valid = true ∧ ∃ takenAt, c.grants grantId = some ⟨false, takenAt⟩ ∧
        (c.putGrant grantId valid now).grants grantId = some ⟨false, takenAt⟩) := by
  unfold putGrant
  split_ifs with hdead
  · rw [Bool.and_eq_true, Option.any_eq_true] at hdead
    obtain ⟨⟨e, he, hvalue⟩, hvalid⟩ := hdead
    rw [Bool.not_eq_true'] at hvalue
    obtain ⟨value, takenAt⟩ := e
    subst hvalue
    exact .inr ⟨hvalid, takenAt, he, he⟩
  · exact .inl (Function.update_self ..)

theorem putGrant_of_ne {other : FixedBytes 32} (h : other ≠ grantId) :
    (c.putGrant grantId valid now).grants other = c.grants other := by
  unfold putGrant
  split_ifs
  · rfl
  · exact Function.update_of_ne h ..

-- With the times forgotten it is the cache that the writes keep up to date.
theorem values_putGrant (versions : FixedBytes 32 → Option (FixedBytes 32 × UInt32 × Bool)) :
    (c.putGrant grantId valid now).values =
      (Onchain.Cache.putGrant grantId valid ⟨c.values, versions⟩).grants := by
  have hdead : (c.grants grantId).any (fun existing => !existing.value) = true ↔
      c.values grantId = some false := by
    unfold values
    rcases c.grants grantId with _ | ⟨_ | _, takenAt⟩ <;> simp
  unfold putGrant Onchain.Cache.putGrant
  simp only [Bool.and_eq_true, hdead]
  split_ifs
  · rfl
  · funext other
    by_cases hother : other = grantId
    · subst hother
      simp [values]
    · simp [values, Function.update_of_ne hother]

end

end Cache

-- One query: of which grant and, of the cache too, with which tolerance; whether the node answers,
-- and from a block of which time; when the answer is taken down, and when the cache is looked up.
structure Query where
  grantId : FixedBytes 32
  tolerance : Option Nat
  reached : Bool
  timestamp : Nat
  takenAt : Nat
  lookedAt : Nat
deriving DecidableEq

structure State where
  chain : Chain
  cache : Cache

def State.start : State := ⟨.deployed, .new⟩

namespace ChainClient

def isGrantValid (q : Query) (s : State) : Except ChainError Bool × Cache :=
  if q.reached then
    let valid := s.chain.policy.isValid q.timestamp q.grantId
    (.ok valid, s.cache.putGrant q.grantId valid q.takenAt)
  else (.error .unreachable, s.cache)

def isGrantValidOffline (tolerance : Nat) (q : Query) (s : State) :
    Except ChainError (Cached Bool) × Cache :=
  match isGrantValid q s with
  | (.ok _, cache) => match cache.grant q.grantId tolerance q.lookedAt with
    | some cached => (.ok cached, cache)
    | none => (.error .malformed, cache)
  | (.error e, cache) =>
      if e = .unreachable then match cache.grant q.grantId tolerance q.lookedAt with
        | some cached => (.ok cached, cache)
        | none => (.error e, cache)
      else (.error e, cache)

end ChainClient

-- A transaction is mined, a block goes by, or the client asks.
inductive Turn where
  | mined (tx : Tx)
  | waited (timestamp : Nat)
  | asked (q : Query)

def Turn.time : Turn → Nat
  | .mined tx => tx.msg.timestamp
  | .waited timestamp => timestamp
  | .asked q => q.timestamp

inductive Answer where
  | none
  | valid (result : Except ChainError Bool)
  | cached (result : Except ChainError (Cached Bool))
deriving DecidableEq

def step (d : Contracts.Deployment) (s : State) : Turn → Answer × State
  | .mined tx => (.none, { s with chain := (s.chain.transact d tx).2 })
  | .waited _ => (.none, s)
  | .asked q => match q.tolerance with
    | .none =>
        let (result, cache) := ChainClient.isGrantValid q s
        (.valid result, { s with cache })
    | .some tolerance =>
        let (result, cache) := ChainClient.isGrantValidOffline tolerance q s
        (.cached result, { s with cache })

abbrev Moment := Taken State Turn Answer

def minedOf (turns : List Turn) : List Tx :=
  turns.filterMap fun
    | .mined tx => some tx
    | _ => none

-- What the contract says of a grant at a moment.
def Moment.isValid (grantId : FixedBytes 32) (x : Moment) : Bool :=
  x.before.chain.policy.isValid x.input.time grantId

-- Once the answer to a query is no, it is no at every later moment.
def OneWay (log : List Moment) : Prop :=
  ∀ pre x mid y post q, log = pre ++ x :: mid ++ y :: post → x.input = .asked q →
    q.reached = true → Moment.isValid q.grantId x = false → Moment.isValid q.grantId y = false

-- What the node answers is what the cache hands out, as fresh.
def Faithful (log : List Moment) : Prop :=
  ∀ x ∈ log, ∀ q tolerance, x.input = .asked q → q.tolerance = some tolerance → 0 < tolerance →
    q.reached = true → ∃ age, x.output = .cached (.ok ⟨Moment.isValid q.grantId x, .fresh, age⟩)

-- A grant that is good at some moment was on record, and its window open, when it was asked for.
def AskedInTime (log : List Moment) : Prop :=
  ∀ pre x mid y post q, log = pre ++ x :: mid ++ y :: post → x.input = .asked q →
    q.reached = true → Moment.isValid q.grantId y = true →
      (x.before.chain.policy.grants q.grantId).owner ≠ .zero ∧
        (x.before.chain.policy.grants q.grantId).notBefore.toNat ≤ q.timestamp

-- The cache is looked up before its new entry is too old.
def LookedUpAtOnce (log : List Moment) : Prop :=
  ∀ x ∈ log, ∀ q tolerance, x.input = .asked q → q.tolerance = some tolerance → 0 < tolerance →
    q.reached = true → q.lookedAt - q.takenAt ≤ tolerance

end Zbacs.Onchain.Offline
