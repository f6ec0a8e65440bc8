import Zbacs.Session.Wipe.Theorems

namespace Zbacs.Session.OnDisk

open Zbacs.Lib

-- A place in the tree below a directory: everything on the way there is a directory.
structure Below (d : Disk) (dir q : Path) : Prop where
  under : dir <+: q
  dirs : ∀ r, dir <+: r → r <+: q → r ≠ q → d.entry r = some .dir

section

variable {faults : Faults} {d d' : Disk} {dir path q : Path} {depth : Nat} {paths : List Path}
  {step : Path → Disk → Bool × Disk}

theorem length_lt_depth (h : d.entry q ≠ none) : q.length < d.depth := by
  have hmax : ∀ names : List (Path × Entry), ∀ e ∈ names,
      e.1.length ≤ (names.map fun e => e.1.length).foldr max 0 := by
    intro names e he
    induction names with
    | nil => cases he
    | cons e' rest ih =>
        rw [List.map_cons, List.foldr_cons]
        rcases List.mem_cons.mp he with rfl | hin
        · exact Nat.le_max_left _ _
        · exact (ih hin).trans (Nat.le_max_right _ _)
  unfold Disk.entry at h
  rw [Ne, Option.map_eq_none_iff, List.find?_eq_none] at h
  simp only [decide_eq_true_eq, not_forall, not_not] at h
  obtain ⟨e, hmem, rfl⟩ := h
  exact Nat.lt_succ_of_le (hmax d.names e hmem)

-- Two names in one directory have nothing below them in common.
theorem siblings_disjoint {r : Path} (hp : path.dropLast = dir) (hq : q.dropLast = dir) (hne : path ≠ [])
    (hne' : q ≠ []) (hpr : path <+: r) (hqr : q <+: r) : path = q := by
  have hlen : path.length = q.length := by
    have h := congrArg List.length (hp.trans hq.symm)
    have := List.length_pos_iff.mpr hne
    have := List.length_pos_iff.mpr hne'
    rw [List.length_dropLast, List.length_dropLast] at h
    omega
  exact (List.prefix_of_prefix_length_le hpr hqr hlen.le).eq_of_length hlen

-- One child after the other: what one of them takes away is gone in the end, since the others before
-- it left it alone.
theorem gone_removeEach (hstep : ∀ p d, Removes p d (step p d).2)
    (hchildren : ∀ p ∈ paths, p ≠ [] ∧ p.dropLast = dir) (hmem : path ∈ paths)
    (hgone : ∀ d', (∀ r, path <+: r → d'.entry r = d.entry r) → (step path d').1 = true →
      (step path d').2.entry q = none)
    (hsame : ∀ r, path <+: r → d'.entry r = d.entry r) (htrue : (removeEach step paths d').1 = true) :
    (removeEach step paths d').2.entry q = none := by
  induction paths generalizing d' with
  | nil => cases hmem
  | cons p rest ih =>
      have hnow := hstep p d'
      have hthis := hgone d' hsame
      unfold removeEach at htrue ⊢
      rcases hrun : step p d' with ⟨stuck | done, d₁⟩
      · rw [hrun] at htrue
        cases htrue
      · rw [hrun] at htrue hnow
        have hrest : (removeEach step rest d₁).1 = true := htrue
        have hremoves : Removes [] d₁ (removeEach step rest d₁).2 :=
          removes_removeEach fun p _ d => (hstep p d).mono List.nil_prefix
        by_cases hp : path = p
        · subst hp
          rw [hrun] at hthis
          exact hremoves.names.entry_eq_none (hthis rfl)
        · have hin : path ∈ rest := (List.mem_cons.mp hmem).resolve_left hp
          refine ih (fun p hp => hchildren p (List.mem_cons_of_mem _ hp)) hin (fun r hr => ?_) hrest
          have hfree : ¬p <+: r := fun hpr => by
            obtain ⟨hne, hdir⟩ := hchildren p List.mem_cons_self
            obtain ⟨hne', hdir'⟩ := hchildren path hmem
            exact hp (siblings_disjoint hdir' hdir hne' hne hr hpr)
          rw [hnow.outside r hfree]
          exact hsame r hr

theorem Below.entry_dir (hq : Below d path q) (hne : path ≠ q) : d.entry path = some .dir :=
  hq.dirs path (List.prefix_refl _) hq.under hne

theorem Below.child (hq : Below d dir q) (hpath : dir <+: path) (hle : path <+: q) : Below d path q :=
  ⟨hle, fun r hr hrq hne => hq.dirs r (hpath.trans hr) hrq hne⟩

theorem Below.congr (hq : Below d path q) (hsame : ∀ r, path <+: r → d'.entry r = d.entry r) :
    Below d' path q :=
  ⟨hq.under, fun r hr hrq hne => (hsame r hr).trans (hq.dirs r hr hrq hne)⟩

-- Only a directory has something below it.
theorem Below.entry_none (hq : Below d path q) (hnone : d.entry path = none) : d.entry q = none := by
  by_cases hself : path = q
  · rw [← hself]
    exact hnone
  · have hdir := hq.entry_dir hself
    rw [hnone] at hdir
    cases hdir

theorem gone_removeEntry {below : Path → Disk → Bool × Disk} (hq : Below d path q)
    (hbelow : (below path d).1 = true → (below path d).2.entry q = none)
    (h : (removeEntry faults below path d).1 = true) : (removeEntry faults below path d).2.entry q = none := by
  unfold removeEntry at h ⊢
  cases hentry : d.entry path with
  | none => exact hq.entry_none hentry
  | some e =>
      rw [hentry] at h
      cases e with
      | dir => exact hbelow h
      | file | symlink =>
          have hself : path = q := by
            by_contra hne
            have hdir := hq.entry_dir hne
            rw [hentry] at hdir
            cases hdir
          subst hself
          exact entry_removeName h

-- What the removal of a tree went through is gone.
theorem gone_removeBelow (h : (removeBelow faults depth dir d).1 = true) (hq : Below d dir q) :
    (removeBelow faults depth dir d).2.entry q = none := by
  induction depth generalizing dir d with
  | zero => cases h
  | succ depth ih =>
      have hstep : ∀ p d, Removes p d (removeEntry faults (removeBelow faults depth) p d).2 :=
        fun p d => removes_removeEntry fun d => removes_removeBelow
      have hremoves : Removes [] d
          (removeEach (removeEntry faults (removeBelow faults depth)) (d.children dir) d).2 :=
        removes_removeEach fun p _ d => (hstep p d).mono List.nil_prefix
      unfold removeBelow at h ⊢
      split at h
      · cases h
      rename_i hopen
      rw [if_neg hopen]
      rcases hrun : removeEach (removeEntry faults (removeBelow faults depth)) (d.children dir) d with
        ⟨stuck | done, d₁⟩
      · rw [hrun] at h
        cases h
      rw [hrun] at h hremoves
      by_cases hself : dir = q
      · rw [← hself]
        exact entry_removeName h
      refine (removes_removeName faults dir d₁).names.entry_eq_none ?_
      -- the child on the way
      obtain ⟨rest, rfl⟩ := hq.under
      cases rest with
      | nil => exact absurd (List.append_nil dir).symm hself
      | cons name rest =>
          have hway : dir ++ [name] <+: dir ++ name :: rest := ⟨rest, by simp⟩
          have hchild := hq.child (List.prefix_append dir [name]) hway
          cases hentry : d.entry (dir ++ [name]) with
          | none => exact hremoves.names.entry_eq_none (hchild.entry_none hentry)
          | some e =>
              have hmem : dir ++ [name] ∈ d.children dir :=
                Disk.mem_children.mpr ⟨by simp, List.dropLast_concat, by simp [hentry]⟩
              have hgone := gone_removeEach hstep
                (fun p hp => ⟨(Disk.mem_children.mp hp).1, (Disk.mem_children.mp hp).2.1⟩) hmem
                (fun d' hsame => gone_removeEntry (hchild.congr hsame) fun hdone =>
                  ih hdone (hchild.congr hsame))
                (fun _ _ => rfl) (congrArg Prod.fst hrun)
              rwa [hrun] at hgone

-- A removal at which nothing fails.
structure Faults.Quiet (faults : Faults) : Prop where
  stop : ∀ p, faults.stop p = none
  closed : ∀ p, faults.closed p = false
  blocked : ∀ p, faults.blocked p = false

theorem Faults.calm_quiet : Faults.calm.Quiet := ⟨fun _ => rfl, fun _ => rfl, fun _ => rfl⟩

theorem removeName_quiet (hquiet : faults.Quiet) : (removeName faults path d).1 = true := by
  rw [removeName, hquiet.blocked, if_neg Bool.false_ne_true]

theorem removeEach_quiet (hstep : ∀ p ∈ paths, ∀ d', d.Shrinks d' →
    (step p d').1 = true ∧ d'.Shrinks (step p d').2) (hnames : d.Shrinks d') :
    (removeEach step paths d').1 = true := by
  induction paths generalizing d' with
  | nil => rfl
  | cons p rest ih =>
      obtain ⟨hdone, hshrinks⟩ := hstep p List.mem_cons_self d' hnames
      unfold removeEach
      rcases hrun : step p d' with ⟨stuck | done, d₁⟩
      · rw [hrun] at hdone
        cases hdone
      · rw [hrun] at hshrinks
        exact ih (fun p hp => hstep p (List.mem_cons_of_mem _ hp)) (hnames.trans hshrinks)

-- Nothing fails, so the removal only has to go as deep as the tree.
theorem removeBelow_quiet (hquiet : faults.Quiet) (hthere : d.entry dir ≠ none)
    (hdeep : ∀ q, dir <+: q → d.entry q ≠ none → q.length < dir.length + depth) :
    (removeBelow faults depth dir d).1 = true := by
  induction depth generalizing dir d with
  | zero => exact absurd (hdeep dir (List.prefix_refl _) hthere) (by omega)
  | succ depth ih =>
      have heach : (removeEach (removeEntry faults (removeBelow faults depth)) (d.children dir) d).1 =
          true := by
        refine removeEach_quiet (fun p hp d' hnames => ⟨?_, ?_⟩) (Disk.Shrinks.refl d)
        · unfold removeEntry
          cases hentry : d'.entry p with
          | none => rfl
          | some e => cases e with
            | file | symlink => exact removeName_quiet hquiet
            | dir =>
                refine ih (by rw [hentry]; exact Option.some_ne_none _) fun q hq hqthere => ?_
                have hlonger := prefix_of_mem_children hp
                have hqdeep := hdeep q (hlonger.trans hq) fun hnone => hqthere (hnames.entry_eq_none hnone)
                obtain ⟨hne, hdir, -⟩ := Disk.mem_children.mp hp
                have hlen := congrArg List.length hdir
                have := List.length_pos_iff.mpr hne
                rw [List.length_dropLast] at hlen
                omega
        · exact (removes_removeEntry fun d => removes_removeBelow).names
      unfold removeBelow
      rw [hquiet.closed, if_neg Bool.false_ne_true]
      rcases hrun : removeEach (removeEntry faults (removeBelow faults depth)) (d.children dir) d with
        ⟨stuck | done, d₁⟩
      · rw [hrun] at heach
        cases heach
      · exact removeName_quiet hquiet

-- A directory is removed whole where nothing fails.
theorem removeDirAll_quiet (hquiet : faults.Quiet) (hdir : d.entry dir = some .dir) :
    (removeDirAll faults dir d).1 = .ok () := by
  have hbelow : (removeBelow faults d.depth dir d).1 = true :=
    removeBelow_quiet hquiet (by rw [hdir]; exact Option.some_ne_none _) fun q _ hthere =>
      (length_lt_depth hthere).trans_le (Nat.le_add_left _ _)
  rw [removeDirAll_dir hdir, if_pos hbelow]

-- What a removal without an error leaves of a directory: nothing.
theorem gone_removeDirAll (hdir : d.entry dir = some .dir)
    (hok : (removeDirAll faults dir d).1 ≠ .error .other) (hq : Below d dir q) :
    (removeDirAll faults dir d).2.entry q = none := by
  rw [removeDirAll_dir hdir] at hok ⊢
  exact gone_removeBelow (by_contra fun hstuck => hok (if_neg hstuck)) hq

end

end Zbacs.Session.OnDisk
