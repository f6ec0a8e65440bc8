import Zbacs.Lib.Bytes

namespace Zbacs.Lib

-- An input. `offer k` is how many bytes the input is willing to hand out on its
-- `k`-th read call: a reader may return fewer bytes than asked for, but returns
-- none only at the end.
structure Reader where
  data : Bytes
  pos : Nat
  calls : Nat
  offer : Nat → Nat

namespace Reader

variable (r : Reader)

def ofData (data : Bytes) (offer : Nat → Nat) : Reader := ⟨data, 0, 0, offer⟩

-- What is still to be read.
def rest : Bytes := r.data.drop r.pos

def advance (count : Nat) : Reader := { r with pos := r.pos + count, calls := r.calls + 1 }

def read (want : Nat) : Bytes × Reader :=
  let got := r.rest.take (min want (max 1 (r.offer r.calls)))
  (got, r.advance got.length)

def seekStart : Reader := { r with pos := 0 }

-- The loop of `read_exact`: read until the buffer is full or the input ends.
-- Every round but the last fills at least one byte, so `want` rounds suffice.
def fill : Nat → Nat → Reader → Bytes → Option (Bytes × Reader)
  | _, 0, r, acc => some (acc, r)
  | 0, _ + 1, _, _ => none
  | fuel + 1, want + 1, r, acc =>
      match r.read (want + 1) with
      | ([], _) => none
      | (got, r) => fill fuel (want + 1 - got.length) r (acc ++ got)

def readExact (want : Nat) : Option (Bytes × Reader) := fill want want r []

@[simp] theorem rest_ofData (data : Bytes) (offer : Nat → Nat) : (ofData data offer).rest = data := by
  simp [rest, ofData]

@[simp] theorem rest_seekStart : r.seekStart.rest = r.data := by
  simp [rest, seekStart]

@[simp] theorem rest_advance (count : Nat) : (r.advance count).rest = r.rest.drop count := by
  simp [rest, advance, List.drop_drop]

@[simp] theorem data_read (want : Nat) : (r.read want).2.data = r.data := rfl

theorem read_append (want : Nat) : (r.read want).1 ++ (r.read want).2.rest = r.rest := by
  simp only [read, rest_advance, List.length_take]
  conv_rhs => rw [← List.take_append_drop (min want (max 1 (r.offer r.calls))) r.rest]
  congr 1
  rcases Nat.le_total (min want (max 1 (r.offer r.calls))) r.rest.length with h | h
  · rw [Nat.min_eq_left h]
  · rw [Nat.min_eq_right h, List.drop_length, List.drop_eq_nil_of_le h]

theorem length_read_le (want : Nat) : (r.read want).1.length ≤ want := by
  simp only [read, List.length_take]
  omega

theorem read_eq_nil (want : Nat) : (r.read (want + 1)).1 = [] ↔ r.rest = [] := by
  simp only [read, List.take_eq_nil_iff]
  constructor
  · rintro (h | h)
    · omega
    · exact h
  · exact Or.inr

-- The reader stays on the same data and has `left` still to give.
def At (data left : Bytes) (r : Reader) : Prop := r.data = data ∧ r.rest = left

theorem fill_spec (fuel want : Nat) (acc : Bytes) (hfuel : want ≤ fuel) :
    if want ≤ r.rest.length then
      ∃ r', fill fuel want r acc = some (acc ++ r.rest.take want, r') ∧
        At r.data (r.rest.drop want) r'
    else fill fuel want r acc = none := by
  induction fuel generalizing want r acc with
  | zero =>
      obtain rfl : want = 0 := by omega
      exact ⟨r, by simp [fill], rfl, by simp⟩
  | succ fuel ih =>
      cases want with
      | zero => exact ⟨r, by simp [fill], rfl, by simp⟩
      | succ want =>
          have happ := r.read_append (want + 1)
          have hle := r.length_read_le (want + 1)
          have hdata := r.data_read (want + 1)
          have hnil := r.read_eq_nil want
          rcases hread : r.read (want + 1) with ⟨got, next⟩
          rw [hread] at happ hle hdata hnil
          simp only at happ hle hdata hnil
          cases got with
          | nil =>
              have hempty := hnil.mp rfl
              simp [hempty, fill, hread]
          | cons b got =>
              have hlen : (b :: got).length + next.rest.length = r.rest.length := by
                rw [← happ, List.length_append]
              have hstep := ih next (want + 1 - (b :: got).length) (acc ++ b :: got) (by
                simp only [List.length_cons]
                omega)
              have hfill : fill (fuel + 1) (want + 1) r acc =
                  fill fuel (want + 1 - (b :: got).length) next (acc ++ b :: got) := by
                simp [fill, hread]
              rw [hfill]
              by_cases hw : want + 1 ≤ r.rest.length
              · rw [if_pos (by omega)] at hstep
                rw [if_pos hw]
                obtain ⟨r', he, hd, hr⟩ := hstep
                refine ⟨r', ?_, hd.trans hdata, ?_⟩
                · rw [he, ← happ, List.take_append, List.take_of_length_le hle, List.append_assoc]
                · rw [hr, ← happ, List.drop_append, List.drop_eq_nil_of_le hle, List.nil_append]
              · rw [if_neg (by omega)] at hstep
                rw [if_neg hw]
                exact hstep

theorem readExact_some (want : Nat) (h : want ≤ r.rest.length) :
    ∃ r', r.readExact want = some (r.rest.take want, r') ∧ At r.data (r.rest.drop want) r' := by
  have hspec := r.fill_spec want want [] (Nat.le_refl _)
  rw [if_pos h] at hspec
  simpa [readExact] using hspec

theorem readExact_none (want : Nat) (h : r.rest.length < want) : r.readExact want = none := by
  have hspec := r.fill_spec want want [] (Nat.le_refl _)
  rwa [if_neg (by omega)] at hspec

theorem readExact_append (want : Nat) (front back : Bytes) (h : r.rest = front ++ back)
    (hlen : front.length = want) :
    ∃ r', r.readExact want = some (front, r') ∧ At r.data back r' := by
  obtain ⟨r', he, hat⟩ := r.readExact_some want (by rw [h, List.length_append]; omega)
  subst hlen
  rw [h, List.take_left] at he
  rw [h, List.drop_left] at hat
  exact ⟨r', he, hat⟩

-- Whatever `read_exact` returns is the front of what was left.
theorem readExact_eq_some {want : Nat} {got : Bytes} {r' : Reader}
    (h : r.readExact want = some (got, r')) :
    r.rest = got ++ r'.rest ∧ got.length = want ∧ r'.data = r.data := by
  by_cases hw : want ≤ r.rest.length
  · obtain ⟨next, he, hd, hr⟩ := r.readExact_some want hw
    rw [h] at he
    cases he
    exact ⟨by rw [hr, List.take_append_drop], by simp [hw], hd⟩
  · rw [r.readExact_none want (by omega)] at h
    cases h

end Reader

-- A seekable input at its start: stream positions are 64-bit, and so is the
-- number of bytes.
structure Seekable extends Reader where
  pos_eq : pos = 0
  length_lt : data.length < 2 ^ 64

def Seekable.ofData (data : Bytes) (offer : Nat → Nat) (h : data.length < 2 ^ 64) : Seekable :=
  ⟨.ofData data offer, rfl, h⟩

theorem Seekable.rest_eq (s : Seekable) : s.rest = s.data := by
  simp [Reader.rest, s.pos_eq]

-- Where output goes. `accepts n` says whether the write that brings the output
-- to `n` bytes succeeds; `flushes` whether the final flush does.
structure Sink where
  accepts : Nat → Bool
  flushes : Bool

namespace Sink

-- A sink that does not fail.
def Total (s : Sink) : Prop := (∀ n, s.accepts n = true) ∧ s.flushes = true

def memory : Sink := ⟨fun _ => true, true⟩

theorem memory_total : memory.Total := ⟨fun _ => rfl, rfl⟩

end Sink

end Zbacs.Lib
