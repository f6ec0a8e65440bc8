import Zbacs.Core.Path.Chain
import Zbacs.Core.Reference

namespace Zbacs.Core

open Zbacs.Lib

-- What a list of versions has to be to stand for one file, oldest first.
structure WellFormedChain (P : Primitives) (chain : List (Header × HeaderHash)) : Prop where
  nonempty : chain ≠ []
  numbered : ∀ i (h : i < chain.length), chain[i].1.body.ver.toNat = i + 1
  rooted : ∀ c, chain.head? = some c → c.1.body.prev = none
  hashed : ∀ c ∈ chain, c.1.headerHash P = .ok c.2
  linked : ∀ i (h : i + 1 < chain.length),
    ∃ hash, chain[i].1.headerHash P = .ok hash ∧ chain[i + 1].1.body.prev = some hash
  same : ∀ c ∈ chain, ∀ c' ∈ chain, c.1.body.fid = c'.1.body.fid ∧ c.1.body.salt = c'.1.body.salt

section Checked

variable (P : Primitives)

-- The same loop where `prev.body.ver + 1` is checked, as a debug build has it: it stops there.
def verifyLinksChecked (prev : Header) (prevHash : HeaderHash) :
    List (Header × HeaderHash) → Option (Result Unit)
  | [] => some (.ok ())
  | (h, hash) :: rest =>
    if prev.body.ver.toNat + 1 ≥ 2 ^ 32 then none
    else if h.body.ver ≠ prev.body.ver + 1 then
      some (.error (.brokenChain "version numbers are not consecutive"))
    else if h.body.prev ≠ some prevHash then
      some (.error (.brokenChain "prev does not match the previous header hash"))
    else if h.body.fid ≠ prev.body.fid ∨ h.body.salt ≠ prev.body.salt then
      some (.error (.brokenChain "file identity changed between versions"))
    else match h.headerHash P with
      | .error e => some (.error e)
      | .ok own =>
        if own ≠ hash then some (.error (.brokenChain "header hash does not match the header"))
        else verifyLinksChecked h hash rest

def verifyVersionChainChecked : List (Header × HeaderHash) → Option (Result Unit)
  | [] => some (.error (.brokenChain "empty chain"))
  | (first, hash) :: rest =>
    if first.body.ver ≠ 1 ∨ first.body.prev.isSome then
      some (.error (.brokenChain "chain does not start at version 1"))
    else verifyLinksChecked P first hash rest

end Checked

section Links

variable {P : Primitives} {prev : Header} {prevHash : HeaderHash} {rest : List (Header × HeaderHash)}

theorem linked_iff {c c' : Header × HeaderHash} : Linked P c c' ↔
    c'.1.body.ver = c.1.body.ver + 1 ∧ c'.1.body.prev = some c.2 ∧
      (c'.1.body.fid = c.1.body.fid ∧ c'.1.body.salt = c.1.body.salt) ∧ c'.1.headerHash P = .ok c'.2 :=
  ⟨fun h => ⟨h.ver, h.prev, ⟨h.fid, h.salt⟩, h.hash⟩,
    fun ⟨hver, hprev, ⟨hfid, hsalt⟩, hhash⟩ => ⟨hver, hprev, hfid, hsalt, hhash⟩⟩

theorem verifyLinks_cons {h : Header} {hash : HeaderHash} :
    verifyLinks P prev prevHash ((h, hash) :: rest) = .ok () ↔
      Linked P (prev, prevHash) (h, hash) ∧ verifyLinks P h hash rest = .ok () := by
  rw [verifyLinks]
  simp only [ite_error_eq_ok, linked_iff, bind_eq_ok, not_not, not_or]
  constructor
  · rintro ⟨hver, hprev, hsame, own, hown, hhash, hrest⟩
    exact ⟨⟨hver, hprev, hsame, hhash ▸ hown⟩, hrest⟩
  · rintro ⟨⟨hver, hprev, hsame, hhash⟩, hrest⟩
    exact ⟨hver, hprev, hsame, hash, hhash, rfl, hrest⟩

theorem verifyLinks_eq_ok : verifyLinks P prev prevHash rest = .ok () ↔
    ((prev, prevHash) :: rest).IsChain (Linked P) := by
  induction rest generalizing prev prevHash with
  | nil => exact iff_of_true rfl (List.isChain_singleton _)
  | cons c rest ih => rw [verifyLinks_cons, List.isChain_cons_cons, ih]

-- The checks are all made, and nothing is left to add to the number.
theorem verifyLinksChecked_cons {h : Header} {hash : HeaderHash}
    (hver : prev.body.ver.toNat + 1 < 2 ^ 32) :
    verifyLinksChecked P prev prevHash ((h, hash) :: rest) = none ↔
      Linked P (prev, prevHash) (h, hash) ∧ verifyLinksChecked P h hash rest = none := by
  rw [verifyLinksChecked, if_neg (by omega), linked_iff]
  dsimp only
  split_ifs with hnumber hprev hsame
  · simp [hnumber]
  · simp [hprev]
  · rw [← not_and_or] at hsame
    simp only [hsame, and_false, false_and]
  · rw [not_or, not_not, not_not] at hsame
    rw [not_not] at hnumber hprev
    cases hown : h.headerHash P with
    | error e => simp
    | ok own =>
        dsimp only
        by_cases hhash : own = hash
        · simp [hnumber, hprev, hsame, hhash]
        · simp [hhash]

-- The addition overflows when the numbers have been used up, and another version follows.
theorem verifyLinksChecked_eq_none {n : Nat} (hver : prev.body.ver.toNat + n = 2 ^ 32 - 1) :
    verifyLinksChecked P prev prevHash rest = none ↔
      n < rest.length ∧ ((prev, prevHash) :: rest.take n).IsChain (Linked P) := by
  induction rest generalizing prev prevHash n with
  | nil => simp [verifyLinksChecked]
  | cons c rest ih =>
      obtain ⟨h, hash⟩ := c
      cases n with
      | zero =>
          rw [verifyLinksChecked, if_pos (by omega)]
          simp
      | succ n =>
          rw [verifyLinksChecked_cons (by omega), List.take_succ_cons, List.isChain_cons_cons,
            List.length_cons, Nat.add_lt_add_iff_right]
          by_cases hlink : Linked P (prev, prevHash) (h, hash)
          · have hnext : h.body.ver.toNat + n = 2 ^ 32 - 1 := by
              rw [show h.body.ver = prev.body.ver + 1 from hlink.ver, UInt32.toNat_add]
              change (prev.body.ver.toNat + 1) % 2 ^ 32 + n = 2 ^ 32 - 1
              omega
            rw [ih hnext, and_left_comm]
          · simp [hlink]

-- Where it does not overflow, it is the same loop.
theorem verifyLinksChecked_eq (prev : Header) (prevHash : HeaderHash) (rest : List (Header × HeaderHash)) :
    verifyLinksChecked P prev prevHash rest = none ∨
      verifyLinksChecked P prev prevHash rest = some (verifyLinks P prev prevHash rest) := by
  induction rest generalizing prev prevHash with
  | nil => exact .inr rfl
  | cons c rest ih =>
      obtain ⟨h, hash⟩ := c
      rw [verifyLinksChecked, verifyLinks]
      split_ifs with hlast hver hprev hsame
      · exact .inl rfl
      · exact .inr rfl
      · exact .inr rfl
      · exact .inr rfl
      · cases h.headerHash P with
        | error e => exact .inr rfl
        | ok own =>
            simp only [ok_bind]
            split_ifs
            · exact .inr rfl
            · exact ih h hash

end Links

-- `u32::MAX`
def maxVersion : Nat := 2 ^ 32 - 1

-- What the function looks at: version 1 without a predecessor, and each entry after the first
-- continues the one before it and has its own hash beside it.
def LinkedChain (P : Primitives) : List (Header × HeaderHash) → Prop
  | [] => False
  | c :: rest => c.1.body.ver = 1 ∧ c.1.body.prev = none ∧ (c :: rest).IsChain (Linked P)

-- The hash beside the first header is its own.
def FirstHashed (P : Primitives) (chain : List (Header × HeaderHash)) : Prop :=
  ∀ c, chain.head? = some c → c.1.headerHash P = .ok c.2

-- Only what is well formed is accepted, and a debug build gets to the same answer.
def ChainExact (P : Primitives) (chain : List (Header × HeaderHash)) : Prop :=
  (verifyVersionChain P chain = .ok () ↔ WellFormedChain P chain) ∧
    verifyVersionChainChecked P chain = some (verifyVersionChain P chain)

section Chain

variable {P : Primitives} {chain : List (Header × HeaderHash)}

theorem verifyVersionChain_eq_ok : verifyVersionChain P chain = .ok () ↔ LinkedChain P chain := by
  cases chain with
  | nil => simp [verifyVersionChain, LinkedChain]
  | cons c rest =>
      rw [verifyVersionChain, ite_error_eq_ok, verifyLinks_eq_ok, LinkedChain, not_or, not_not,
        Option.not_isSome_iff_eq_none, and_assoc]

theorem verifyVersionChainChecked_eq_none : verifyVersionChainChecked P chain = none ↔
    maxVersion < chain.length ∧ LinkedChain P (chain.take maxVersion) := by
  obtain ⟨n, hn⟩ : ∃ n, maxVersion = n + 1 := ⟨maxVersion - 1, by decide⟩
  cases chain with
  | nil => simp [verifyVersionChainChecked]
  | cons c rest =>
      rw [hn, List.take_succ_cons, List.length_cons, Nat.add_lt_add_iff_right, LinkedChain,
        verifyVersionChainChecked]
      split_ifs with hroot
      · simp only [false_iff, not_and]
        rintro - hver hprev
        rcases hroot with hne | hsome
        · exact absurd hver hne
        · rw [hprev] at hsome
          cases hsome
      · rw [not_or, not_not, Option.not_isSome_iff_eq_none] at hroot
        have hver : c.1.body.ver.toNat + n = 2 ^ 32 - 1 := by
          rw [hroot.1, ← show maxVersion = 2 ^ 32 - 1 from rfl, hn]
          exact Nat.add_comm 1 n
        rw [verifyLinksChecked_eq_none hver]
        simp only [hroot, true_and]

theorem verifyVersionChainChecked_eq : verifyVersionChainChecked P chain = none ∨
    verifyVersionChainChecked P chain = some (verifyVersionChain P chain) := by
  cases chain with
  | nil => exact .inr rfl
  | cons c rest =>
      rw [verifyVersionChainChecked, verifyVersionChain]
      split_ifs
      · exact .inr rfl
      · exact verifyLinksChecked_eq c.1 c.2 rest

-- The numbers of a linked chain count on from the first, as long as they last.
theorem ver_getElem (h : chain.IsChain (Linked P)) {n : Nat}
    (hfirst : ∀ c, chain.head? = some c → c.1.body.ver.toNat = n) (hlast : n + chain.length ≤ 2 ^ 32) (i : Nat)
    (hi : i < chain.length) : chain[i].1.body.ver.toNat = n + i := by
  induction i with
  | zero =>
      refine hfirst _ ?_
      rw [List.head?_eq_getElem?, List.getElem?_eq_getElem hi]
  | succ i ih =>
      have hbefore := ih (by omega)
      rw [(h.getElem i hi).ver, UInt32.toNat_add, hbefore]
      change (n + i + 1) % 2 ^ 32 = n + (i + 1)
      omega

theorem identity_getElem (h : chain.IsChain (Linked P)) {c : Header × HeaderHash}
    (hfirst : chain.head? = some c) (i : Nat) (hi : i < chain.length) :
    chain[i].1.body.fid = c.1.body.fid ∧ chain[i].1.body.salt = c.1.body.salt := by
  induction i with
  | zero =>
      rw [List.head?_eq_getElem?, List.getElem?_eq_getElem hi] at hfirst
      cases hfirst
      exact ⟨rfl, rfl⟩
  | succ i ih =>
      obtain ⟨hfid, hsalt⟩ := ih (by omega)
      have hlink := h.getElem i hi
      exact ⟨hlink.fid.trans hfid, hlink.salt.trans hsalt⟩

theorem hashed_getElem (h : chain.IsChain (Linked P)) (hfirst : FirstHashed P chain) (i : Nat)
    (hi : i < chain.length) : chain[i].1.headerHash P = .ok chain[i].2 := by
  cases i with
  | zero =>
      refine hfirst _ ?_
      rw [List.head?_eq_getElem?, List.getElem?_eq_getElem hi]
  | succ i => exact (h.getElem i hi).hash

theorem WellFormedChain.isChain (h : WellFormedChain P chain) : chain.IsChain (Linked P) := by
  refine List.isChain_iff_getElem.mpr fun i hi => ?_
  have hmem : chain[i] ∈ chain := List.getElem_mem (by omega)
  have hnext : chain[i + 1] ∈ chain := List.getElem_mem hi
  have hver := h.numbered i (by omega)
  have hver' := h.numbered (i + 1) hi
  obtain ⟨hash, hhash, hprev⟩ := h.linked i hi
  obtain ⟨hfid, hsalt⟩ := h.same _ hnext _ hmem
  have hown : chain[i].2 = hash := Except.ok.inj ((h.hashed _ hmem).symm.trans hhash)
  refine ⟨UInt32.toNat_inj.mp ?_, by rw [hown, hprev], hfid, hsalt, h.hashed _ hnext⟩
  have hlt := chain[i + 1].1.body.ver.toNat_lt
  rw [UInt32.toNat_add, hver']
  change i + 1 + 1 = (chain[i].1.body.ver.toNat + 1) % 2 ^ 32
  omega

theorem LinkedChain.wellFormed (h : LinkedChain P chain) (hfirst : FirstHashed P chain)
    (hlast : chain.length ≤ maxVersion) : WellFormedChain P chain := by
  cases chain with
  | nil => exact h.elim
  | cons c rest =>
      obtain ⟨hver, hprev, hlinks⟩ := h
      have hone : ∀ d, (c :: rest).head? = some d → d.1.body.ver.toNat = 1 := by
        rintro d ⟨⟩
        rw [hver]
        rfl
      have hbound : 1 + (c :: rest).length ≤ 2 ^ 32 := by
        unfold maxVersion at hlast
        omega
      have hidentity : ∀ d ∈ c :: rest, d.1.body.fid = c.1.body.fid ∧ d.1.body.salt = c.1.body.salt := by
        intro d hd
        obtain ⟨i, hi, rfl⟩ := List.getElem_of_mem hd
        exact identity_getElem hlinks rfl i hi
      refine ⟨List.cons_ne_nil _ _, fun i hi => ?_, ?_, fun d hd => ?_, fun i hi => ?_, fun d hd d' hd' => ?_⟩
      · rw [ver_getElem hlinks hone hbound i hi, Nat.add_comm]
      · rintro d ⟨⟩
        exact hprev
      · obtain ⟨i, hi, rfl⟩ := List.getElem_of_mem hd
        exact hashed_getElem hlinks hfirst i hi
      · exact ⟨_, hashed_getElem hlinks hfirst i (by omega), (hlinks.getElem i hi).prev⟩
      · obtain ⟨hfid, hsalt⟩ := hidentity d hd
        obtain ⟨hfid', hsalt'⟩ := hidentity d' hd'
        exact ⟨hfid.trans hfid'.symm, hsalt.trans hsalt'.symm⟩

theorem WellFormedChain.linkedChain (h : WellFormedChain P chain) :
    LinkedChain P chain ∧ FirstHashed P chain ∧ chain.length ≤ maxVersion := by
  cases chain with
  | nil => exact absurd rfl h.nonempty
  | cons c rest =>
      refine ⟨⟨UInt32.toNat_inj.mp (h.numbered 0 (Nat.succ_pos _)), h.rooted c rfl, h.isChain⟩, ?_, ?_⟩
      · rintro d ⟨⟩
        exact h.hashed c List.mem_cons_self
      · have hlast := h.numbered rest.length (Nat.lt_succ_self _)
        have hlt := ((c :: rest)[rest.length]).1.body.ver.toNat_lt
        rw [hlast] at hlt
        rw [List.length_cons]
        exact Nat.le_sub_one_of_lt hlt

theorem LinkedChain.take (h : LinkedChain P chain) {n : Nat} (hn : 0 < n) : LinkedChain P (chain.take n) := by
  cases chain with
  | nil => exact h.elim
  | cons c rest =>
      obtain ⟨n, rfl⟩ := Nat.exists_eq_succ_of_ne_zero hn.ne'
      obtain ⟨hver, hprev, hlinks⟩ := h
      exact ⟨hver, hprev, hlinks.take (n + 1)⟩

variable (P chain)

-- The hash beside the first header is not looked at, and neither is the end of the numbers.
theorem chainExact_iff : ChainExact P chain ↔ (LinkedChain P chain → FirstHashed P chain) ∧
    ¬(maxVersion < chain.length ∧ LinkedChain P (chain.take maxVersion)) := by
  constructor
  · rintro ⟨hexact, hchecked⟩
    refine ⟨fun hlinked => ?_, fun hover => ?_⟩
    · exact (hexact.mp (verifyVersionChain_eq_ok.mpr hlinked)).linkedChain.2.1
    · rw [verifyVersionChainChecked_eq_none.mpr hover] at hchecked
      cases hchecked
  · rintro ⟨hfirst, hover⟩
    refine ⟨⟨fun hok => ?_, fun h => verifyVersionChain_eq_ok.mpr h.linkedChain.1⟩, ?_⟩
    · have hlinked := verifyVersionChain_eq_ok.mp hok
      refine hlinked.wellFormed (hfirst hlinked) (Nat.not_lt.mp fun hlong => ?_)
      exact hover ⟨hlong, hlinked.take (by decide)⟩
    · exact verifyVersionChainChecked_eq.resolve_left fun hnone =>
        hover (verifyVersionChainChecked_eq_none.mp hnone)

end Chain

namespace Reference

def firstHeader : Header where
  body :=
    { fid := .replicate 32 1
      salt := .replicate 16 2
      ver := 1
      prev := none
      own := [3]
      opub := some (.replicate 32 4)
      pol := .defaultPolicy
      cipher := cipherXChaCha20Poly1305Chunked
      chunk := 1024
      plen := 5
      np := .replicate 16 6
      name := List.replicate 80 7
      env := [⟨.replicate 16 8, algHpkeX25519ChaCha, List.replicate 32 9, List.replicate 48 10⟩] }
  sigk := List.replicate 32 11
  sig := List.replicate 64 12

-- One header with the hash of nothing beside it.
def unhashed : List (Header × HeaderHash) := [(firstHeader, .replicate 32 0)]

theorem not_chainExact : ¬∀ chain, ChainExact primitives chain := by
  intro h
  have hhash : firstHeader.headerHash primitives ≠ .ok (.replicate 32 0) := by decide +kernel
  have haccepted : verifyVersionChain primitives unhashed = .ok () := rfl
  have hwell := (h unhashed).1.mp haccepted
  have hfirst := hwell.linkedChain.2.1
  exact hhash (hfirst (firstHeader, .replicate 32 0) rfl)

end Reference

end Zbacs.Core
