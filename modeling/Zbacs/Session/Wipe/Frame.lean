import Zbacs.Session.Wipe.Overwrites

namespace Zbacs.Session.OnDisk

open Zbacs.Lib

-- However a wipe goes, what is outside the directory is seen as before: the same names, the same
-- contents and attributes, and no write.
def StaysInside (w : Workspace) (d : Disk) : Prop :=
  ∀ listing faults q, ¬w.root <+: q → (wipe w listing faults d).2.seen q = d.seen q

-- What the deletion of these paths cannot carry outside: each that leads to a file is a name inside,
-- and the file has no name outside, or is empty and writable.
def Harmless (root : Path) (paths : List Path) (d : Disk) : Prop :=
  ∀ q ∈ paths, ∀ i, d.fileOf q = some i → root <+: q ∧
    ((∀ r, ¬root <+: r → d.entry r ≠ some (.file i)) ∨
      ((d.inodes i).content = [] ∧ (d.inodes i).readonly = false))

section

variable {w : Workspace} {listing : Listing} {faults : Faults} {d d' : Disk} {root path p q r : Path}
  {i : Nat} {paths rest : List Path} {skipped : Path → Bool} {stops : Path → Option Stop}
  {firstError : Option SessionError}

-- One deletion is seen nowhere outside.
theorem Attempt.seen {out : Except SessionError Unit × Disk} (h : Attempt i path d out)
    (hin : root <+: path) (hfree : (∀ r, ¬root <+: r → d.entry r ≠ some (.file i)) ∨
      ((d.inodes i).content = [] ∧ (d.inodes i).readonly = false)) (hr : ¬root <+: r) :
    out.2.seen r = d.seen r := by
  have hne : r ≠ path := by
    rintro rfl
    exact hr hin
  refine Disk.seen_congr (h.entry_ne hne) fun j hentry => ?_
  by_cases hj : j = i
  · subst hj
    rcases hfree with hnames | ⟨hempty, hwritable⟩
    · exact absurd hentry (hnames r hr)
    · exact (h.wiping.files j).idle hempty hwritable
  · exact h.inodes_ne hj

-- What is harmless stays so while names go and files fade.
theorem Harmless.wiping (h : Harmless root paths d) (hwiping : Wiping d d') : Harmless root paths d' := by
  intro q hq i hfile
  obtain ⟨hin, hfree⟩ := h q hq i (hwiping.names.fileOf hfile)
  refine ⟨hin, hfree.imp (fun hnames r hr hentry => hnames r hr (hwiping.names r _ hentry)) ?_⟩
  rintro ⟨hempty, hwritable⟩
  rw [(hwiping.files i).idle hempty hwritable]
  exact ⟨hempty, hwritable⟩

theorem seen_deleteEach (h : Harmless root paths d) (hr : ¬root <+: r) :
    (deleteEach skipped stops paths firstError d).2.seen r = d.seen r := by
  induction paths generalizing firstError d with
  | nil => rfl
  | cons path rest ih =>
      have hrest : Harmless root rest d := fun q hq => h q (List.mem_cons_of_mem _ hq)
      rcases @deleteEach_cons skipped stops path rest firstError d with
        ⟨-, hrun⟩ | ⟨i, next, -, hpath, hattempt, -, hrun⟩
      · rw [hrun]
        exact ih hrest
      · obtain ⟨hin, hfree⟩ := h path List.mem_cons_self i hpath
        rw [hrun, ih (hrest.wiping hattempt.wiping), hattempt.seen hin hfree hr]

theorem Removes.seen (h : Removes root d d') (hr : ¬root <+: r) : d'.seen r = d.seen r :=
  Disk.seen_congr (h.outside r hr) fun i _ => congrFun h.inodes i

-- Where a path of the listing leads to a file, the first such path is gone after a quiet run.
theorem gone_deleteEach (hquiet : ∀ p, stops p = none) (hlooked : ∀ p, skipped p = false)
    (hmem : q ∈ paths) (hfile : d.fileOf q ≠ none) :
    ∃ r ∈ paths, d.fileOf r ≠ none ∧
      (deleteEach skipped stops paths firstError d).2.entry r = none := by
  induction paths generalizing firstError d with
  | nil => cases hmem
  | cons path rest ih =>
      rcases @deleteEach_cons skipped stops path rest firstError d with
        ⟨hpassed, hrun⟩ | ⟨i, next, -, hpath, hattempt, -, hrun⟩
      · have hnone := hpassed.resolve_left (by rw [hlooked]; exact Bool.false_ne_true)
        have hne : q ≠ path := by
          rintro rfl
          exact hfile hnone
        obtain ⟨r, hr, hrfile, hgone⟩ := ih ((List.mem_cons.mp hmem).resolve_left hne) hfile
        rw [hrun]
        exact ⟨r, List.mem_cons_of_mem _ hr, hrfile, hgone⟩
      · have hok : (secureDelete (stops path) path d).1 = .ok () := by
          rw [hquiet]
          exact secureDelete_calm hpath
        refine ⟨path, List.mem_cons_self, by rw [hpath]; exact Option.some_ne_none _, ?_⟩
        rw [hrun]
        exact wiping_deleteEach.names.entry_eq_none (hattempt.done hok).2.2

theorem listed_subset (hmem : q ∈ listed w listing d) : q ∈ listed w .calm d := by
  unfold listed at hmem ⊢
  split at hmem
  · cases hmem
  · exact hmem

theorem mem_listed_calm (hmem : q ∈ listed w .calm d) : ∃ place, d.real w.root = some place ∧
    d.entry place = some .dir ∧ q ∈ d.children place := by
  have hshown : q ∈ (d.readDir w.root).getD [] := hmem
  cases hread : d.readDir w.root with
  | none =>
      rw [hread] at hshown
      cases hshown
  | some shown =>
      obtain ⟨place, hreal, hdir, rfl⟩ := Disk.readDir_eq_some hread
      rw [hread] at hshown
      exact ⟨place, hreal, hdir, hshown⟩

-- A directory elsewhere shows nothing inside that is a file.
theorem outside_of_listed (hq : q ∈ listed w .calm d) (hout : ¬w.root <+: q) (hr : r ∈ listed w .calm d)
    (hfile : d.fileOf r ≠ none) : ¬w.root <+: r := by
  obtain ⟨place, hreal, hdir, hqchild⟩ := mem_listed_calm hq
  obtain ⟨place', hreal', -, hrchild⟩ := mem_listed_calm hr
  obtain rfl := Option.some.inj (hreal.symm.trans hreal')
  obtain ⟨hne, hrplace, -⟩ := Disk.mem_children.mp hrchild
  intro hin
  have hself : w.root ≠ r := by
    rintro rfl
    rw [Disk.fileOf, hreal, Option.bind_some, hdir] at hfile
    exact hfile rfl
  -- otherwise the whole directory would be inside
  have habove : w.root <+: place := by
    rw [← List.dropLast_append_getLast hne, hrplace] at hin hself
    exact (List.prefix_concat_iff.mp hin).resolve_left hself
  exact hout (habove.trans (prefix_of_mem_children hqchild))

theorem staysInside_of_harmless (h : Harmless w.root (listed w .calm d) d) : StaysInside w d := by
  intro listing faults r hr
  have hshown : Harmless w.root (listed w listing d) d := fun q hq => h q (listed_subset hq)
  rw [wipe_snd, (removes_removeDirAll faults w.root _).seen hr]
  exact seen_deleteEach hshown hr

-- A wipe stays inside, whatever fails, exactly when no path that is shown leads to a file with another
-- name outside, and none is itself outside.
theorem staysInside_iff (w : Workspace) (d : Disk) :
    StaysInside w d ↔ Harmless w.root (listed w .calm d) d := by
  constructor
  · intro h q hq i hfile
    have hsame := h .calm .calm
    have hremoves := removes_removeDirAll Faults.calm w.root (deleteFiles w .calm .calm d).2
    have hquiet := Faults.calm_quiet.stop
    rw [wipe_snd] at hsame
    refine ⟨?_, ?_⟩
    · by_contra hout
      obtain ⟨r, hr, hrfile, hgone⟩ : ∃ r ∈ listed w .calm d, d.fileOf r ≠ none ∧
          (deleteFiles w .calm .calm d).2.entry r = none :=
        gone_deleteEach hquiet (fun _ => rfl) hq (by rw [hfile]; exact Option.some_ne_none _)
      have hnow := hsame r (outside_of_listed hq hout hr hrfile)
      rw [Disk.seen_eq_none.mpr (hremoves.names.entry_eq_none hgone)] at hnow
      obtain ⟨place, -, -, hchild⟩ := mem_listed_calm hr
      exact (Disk.mem_children.mp hchild).2.2 (Disk.seen_eq_none.mp hnow.symm)
    · by_contra hneither
      obtain ⟨hnames, hidle⟩ := not_or.mp hneither
      obtain ⟨r, hnames⟩ := not_forall.mp hnames
      obtain ⟨hr, hentry⟩ := Classical.not_imp.mp hnames
      rw [not_not] at hentry
      obtain ⟨hzeroed, hwritable⟩ : Zeroed (d.inodes i) ((deleteFiles w .calm .calm d).2.inodes i) ∧
          ((deleteFiles w .calm .calm d).2.inodes i).readonly = false :=
        zeroed_deleteEach hq rfl hfile (deleteEach_quiet hquiet rfl)
      have hnow := (hsame r hr).trans (Disk.seen_eq_file.mpr ⟨hentry, rfl⟩)
      have hkept : (deleteFiles w .calm .calm d).2.inodes i = d.inodes i := by
        rw [← hremoves.inodes]
        exact (Disk.seen_eq_file.mp hnow).2
      rw [hkept] at hzeroed hwritable
      refine hidle ⟨?_, hwritable⟩
      by_contra hfull
      exact Nat.lt_irrefl _ (hzeroed.writes hfull)
  · exact staysInside_of_harmless

end

namespace Reference

-- A link to a document of the person's own.
def linked : Disk where
  names := [(["w"], .dir), (["w", "a.txt"], .file 0), (["w", "link"], .symlink ["home", "thesis"]),
    (["home"], .dir), (["home", "thesis"], .file 1)]
  inodes := fun _ => ⟨[1, 2, 3], true, 0⟩

-- The wipe follows the link: the document is made writable and filled with zeros.
theorem not_staysInside : ¬StaysInside session linked := by
  intro h
  have hsame := h .calm .calm ["home", "thesis"] (by decide)
  exact absurd hsame (by decide)

-- The document is still where it was, without its content.
example : (wipe session .calm .calm linked).2.seen ["home", "thesis"] =
    some (.file 1 ⟨[0, 0, 0], false, 1⟩) := by decide

end Reference

end Zbacs.Session.OnDisk
