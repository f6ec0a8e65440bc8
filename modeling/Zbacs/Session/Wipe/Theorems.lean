import Zbacs.Session.Wipe

namespace Zbacs.Session.OnDisk

open Zbacs.Lib

-- What a wipe does to a file at most: bytes become zero, and it becomes writable. An empty file
-- that is writable already stays as it is.
structure Fades (x y : Inode) : Prop where
  length : y.content.length = x.content.length
  bytes : ∀ k < x.content.length, y.content[k]? = x.content[k]? ∨ y.content[k]? = some 0
  readonly : y.readonly = true → x.readonly = true
  writes : x.writes ≤ y.writes
  idle : x.content = [] → x.readonly = false → y = x

-- All bytes were overwritten with zeros.
structure Zeroed (x y : Inode) : Prop where
  content : y.content = List.replicate x.content.length 0
  writes : x.content ≠ [] → x.writes < y.writes

section

variable {x y z : Inode} {rounds left pos : Nat} {room : Option Nat}

theorem Fades.refl (x : Inode) : Fades x x :=
  ⟨rfl, fun _ _ => .inl rfl, fun h => h, Nat.le_refl _, fun _ _ => rfl⟩

theorem Fades.trans (h : Fades x y) (h' : Fades y z) : Fades x z where
  length := h'.length.trans h.length
  bytes := by
    intro k hk
    rcases h'.bytes k (h.length.symm ▸ hk) with hkept | hzero
    · rw [hkept]
      exact h.bytes k hk
    · exact .inr hzero
  readonly := fun hz => h.readonly (h'.readonly hz)
  writes := h.writes.trans h'.writes
  idle := by
    intro hempty hwritable
    obtain rfl := h.idle hempty hwritable
    exact h'.idle hempty hwritable

-- Zeros stay zeros.
theorem Zeroed.fades (h : Zeroed x y) (h' : Fades y z) : Zeroed x z where
  content := by
    have hlen := congrArg List.length h.content
    rw [List.length_replicate] at hlen
    refine List.ext_getElem? fun k => ?_
    by_cases hk : k < x.content.length
    · have hzero : y.content[k]? = some 0 := by rw [h.content, List.getElem?_replicate, if_pos hk]
      rw [List.getElem?_replicate, if_pos hk]
      rcases h'.bytes k (hlen ▸ hk) with hkept | hdone
      · exact hkept.trans hzero
      · exact hdone
    · have hz := h'.length
      rw [List.getElem?_eq_none (by omega), List.getElem?_eq_none (by rw [List.length_replicate]; omega)]
  writes := fun hne => (h.writes hne).trans_le h'.writes

theorem Fades.zeroed (h : Fades x y) (h' : Zeroed y z) : Zeroed x z where
  content := h.length ▸ h'.content
  writes := by
    intro hne
    have hne' : y.content ≠ [] := by
      rw [← List.length_pos_iff, h.length]
      exact List.length_pos_iff.mpr hne
    exact h.writes.trans_lt (h'.writes hne')

theorem fades_write {n : Nat} (h : pos + n ≤ x.content.length) :
    Fades x (x.write pos (List.replicate n 0)) where
  length := Inode.length_write (by rwa [List.length_replicate])
  bytes := by
    intro k _
    rw [Inode.getElem?_write (by rwa [List.length_replicate]), List.length_replicate]
    split
    · rw [List.getElem?_replicate, if_pos (by omega)]
      exact .inr rfl
    · exact .inl rfl
  readonly := by rw [Inode.readonly_write]; exact id
  writes := Inode.writes_le_write x pos _
  idle := by
    intro hempty _
    rw [hempty, List.length_nil] at h
    obtain rfl : n = 0 := by omega
    rfl

theorem fades_zeroLoop (h : pos + left ≤ x.content.length) :
    Fades x (zeroLoop rounds left pos room x).2 := by
  induction rounds generalizing left pos room x with
  | zero => exact Fades.refl x
  | succ rounds ih =>
      unfold zeroLoop
      split
      · exact Fades.refl x
      · dsimp only
        have hn : min left zerosLen ≤ left := Nat.min_le_left _ _
        split
        · rename_i hroom
          refine fades_write ?_
          cases room with
          | none => cases hroom
          | some k =>
              rw [Option.any_some, decide_eq_true_eq] at hroom
              rw [Option.getD_some]
              omega
        · have hwrite : Fades x (x.write pos (List.replicate (min left zerosLen) 0)) :=
            fades_write (by omega)
          refine hwrite.trans (ih ?_)
          rw [hwrite.length]
          omega

theorem readonly_zeroLoop : (zeroLoop rounds left pos room x).2.readonly = x.readonly := by
  induction rounds generalizing left pos room x with
  | zero => rfl
  | succ rounds ih =>
      unfold zeroLoop
      split
      · rfl
      · dsimp only
        split
        · exact Inode.readonly_write _ _ _
        · rw [ih, Inode.readonly_write]

-- A loop that ends well has overwritten everything from where it began.
theorem zeros_zeroLoop (h : pos + left ≤ x.content.length)
    (hdone : (zeroLoop rounds left pos room x).1 = true) :
    (∀ k, pos ≤ k → k < pos + left → (zeroLoop rounds left pos room x).2.content[k]? = some 0) ∧
      (left ≠ 0 → x.writes < (zeroLoop rounds left pos room x).2.writes) := by
  induction rounds generalizing left pos room x with
  | zero =>
      have hleft : left = 0 := of_decide_eq_true hdone
      exact ⟨fun k hk hk' => by omega, fun hne => absurd hleft hne⟩
  | succ rounds ih =>
      unfold zeroLoop at hdone ⊢
      split at hdone
      · rename_i hleft
        exact ⟨fun k hk hk' => by omega, fun hne => absurd hleft hne⟩
      · rename_i hleft
        dsimp only at hdone
        rw [if_neg hleft]
        dsimp only
        split at hdone
        · cases hdone
        · rename_i hroom
          rw [if_neg hroom]
          have hn : 0 < min left zerosLen := Nat.lt_min.mpr ⟨Nat.pos_of_ne_zero hleft, by decide⟩
          have hn' : min left zerosLen ≤ left := Nat.min_le_left _ _
          generalize min left zerosLen = n at hdone hn hn' ⊢
          have hwrite : Fades x (x.write pos (List.replicate n 0)) := fades_write (by omega)
          have hlen := hwrite.length
          have hrest := @ih (x.write pos (List.replicate n 0)) (left - n) (pos + n) (room.map (· - n))
            (by omega) hdone
          have hfades : Fades (x.write pos (List.replicate n 0)) (zeroLoop rounds (left - n) (pos + n)
              (room.map (· - n)) (x.write pos (List.replicate n 0))).2 := fades_zeroLoop (by omega)
          refine ⟨fun k hk hk' => ?_, fun _ => ?_⟩
          · by_cases hnow : k < pos + n
            · -- this block is zero now, and the rest of the loop leaves it so
              have hzero : (x.write pos (List.replicate n 0)).content[k]? = some 0 := by
                rw [Inode.getElem?_write (by rw [List.length_replicate]; omega), List.length_replicate,
                  if_pos ⟨hk, hnow⟩, List.getElem?_replicate, if_pos (by omega)]
              rcases hfades.bytes k (by omega) with hkept | hdone
              · exact hkept.trans hzero
              · exact hdone
            · exact hrest.1 k (by omega) (by omega)
          · have hmore : (x.write pos (List.replicate n 0)).writes = x.writes + 1 :=
              Inode.writes_write (by rw [Ne, List.replicate_eq_nil_iff]; omega)
            have := hfades.writes
            omega

-- Nothing fails, so the loop ends well.
theorem zeroLoop_calm (h : left ≤ rounds) : (zeroLoop rounds left pos none x).1 = true := by
  induction rounds generalizing left pos x with
  | zero => exact decide_eq_true (by omega)
  | succ rounds ih =>
      unfold zeroLoop
      split
      · rfl
      · rename_i hleft
        have hn : 0 < min left zerosLen := Nat.lt_min.mpr ⟨Nat.pos_of_ne_zero hleft, by decide⟩
        exact ih (by omega)

theorem zeroed_zeroLoop (hdone : (zeroLoop rounds x.content.length 0 room x).1 = true) :
    Zeroed x (zeroLoop rounds x.content.length 0 room x).2 := by
  have hle : 0 + x.content.length ≤ x.content.length := by omega
  obtain ⟨hzeros, hwrites⟩ := zeros_zeroLoop hle hdone
  have hlen := (@fades_zeroLoop x rounds x.content.length 0 room hle).length
  refine ⟨List.ext_getElem? fun k => ?_, fun hne => hwrites (by rwa [Ne, List.length_eq_zero_iff])⟩
  rw [List.getElem?_replicate]
  split
  · rename_i hk
    exact hzeros k (Nat.zero_le k) (by omega)
  · rw [List.getElem?_eq_none (by omega)]

end

-- What the deletion of one file did: the file faded, and once it is all zeros its name is gone.
inductive Attempt (i : Nat) (path : Path) (d : Disk) : Except SessionError Unit × Disk → Prop where
  | failed {y : Inode} (hfades : Fades (d.inodes i) y) : Attempt i path d (.error .io, d.setInode i y)
  | deleted {y : Inode} (hfades : Fades (d.inodes i) y) (hzeroed : Zeroed (d.inodes i) y)
      (hwritable : y.readonly = false) : Attempt i path d (.ok (), (d.setInode i y).unlink path)

-- Names only go, and files only fade.
structure Wiping (d d' : Disk) : Prop where
  names : d.Shrinks d'
  files : ∀ i, Fades (d.inodes i) (d'.inodes i)

section

variable {d d' d'' : Disk} {path p q : Path} {i : Nat} {x : Inode} {stop : Option Stop}
  {skipped : Path → Bool} {stops : Path → Option Stop} {listed : List Path}
  {firstError : Option SessionError} {result : Except SessionError Unit}

theorem Wiping.refl (d : Disk) : Wiping d d := ⟨Disk.Shrinks.refl d, fun _ => Fades.refl _⟩

theorem Wiping.trans (h : Wiping d d') (h' : Wiping d' d'') : Wiping d d'' :=
  ⟨h.names.trans h'.names, fun i => (h.files i).trans (h'.files i)⟩

theorem wiping_unlink (p : Path) : Wiping d (d.unlink p) :=
  ⟨Disk.shrinks_unlink p, fun _ => Fades.refl _⟩

theorem wiping_setInode (h : Fades (d.inodes i) x) : Wiping d (d.setInode i x) where
  names := Disk.shrinks_setInode i x
  files := by
    intro j
    by_cases hj : j = i
    · rw [hj, Disk.inodes_setInode_self]
      exact h
    · rw [Disk.inodes_setInode_ne hj]
      exact Fades.refl _

theorem fades_writable (x : Inode) : Fades x { x with readonly := false } where
  length := rfl
  bytes := fun _ _ => .inl rfl
  readonly := by rintro ⟨⟩
  writes := Nat.le_refl _
  idle := by
    rintro - hwritable
    rw [← hwritable]

theorem attempt_secureDelete (h : d.fileOf path = some i) :
    Attempt i path d (secureDelete stop path d) := by
  have hsame : Attempt i path d (.error .io, d) := by
    have hfailed := @Attempt.failed i path d _ (Fades.refl (d.inodes i))
    rwa [Disk.setInode_self] at hfailed
  unfold secureDelete
  simp only [h]
  split
  · exact hsame
  · split
    · exact hsame
    · have hopen := fades_writable (d.inodes i)
      split
      · exact .failed hopen
      · rcases hloop : zeroLoop (d.inodes i).content.length (d.inodes i).content.length 0 (Stop.room stop)
            { d.inodes i with readonly := false } with ⟨done, y⟩
        have hfades : Fades { d.inodes i with readonly := false } y := by
          have := @fades_zeroLoop { d.inodes i with readonly := false } (d.inodes i).content.length
            (d.inodes i).content.length 0 (Stop.room stop) (Nat.zero_add _).le
          rwa [hloop] at this
        dsimp only
        split
        · exact .failed (hopen.trans hfades)
        · rename_i hgood
          rw [not_or, Bool.not_eq_true, Bool.not_eq_false'] at hgood
          have hzeroed : Zeroed { d.inodes i with readonly := false } y := by
            have := @zeroed_zeroLoop { d.inodes i with readonly := false }
              (d.inodes i).content.length (Stop.room stop)
            dsimp only at this
            rw [hloop] at this
            exact this hgood.1
          have hwritable : y.readonly = false := by
            have := @readonly_zeroLoop { d.inodes i with readonly := false }
              (d.inodes i).content.length (d.inodes i).content.length 0 (Stop.room stop)
            rwa [hloop] at this
          exact .deleted (hopen.trans hfades) (hopen.zeroed hzeroed) hwritable

-- Where no call fails, the file is deleted.
theorem secureDelete_calm (h : d.fileOf path = some i) : (secureDelete none path d).1 = .ok () := by
  have hloop := @zeroLoop_calm { d.inodes i with readonly := false }
    (d.inodes i).content.length (d.inodes i).content.length 0 (Nat.le_refl _)
  simp only [secureDelete, h]
  simp only [Stop.room, hloop, reduceCtorEq, and_false, if_false, Bool.not_true, Bool.false_eq_true, or_self]

theorem Attempt.wiping {out : Except SessionError Unit × Disk} (h : Attempt i path d out) :
    Wiping d out.2 := by
  cases h with
  | failed hfades => exact wiping_setInode hfades
  | deleted hfades hzeroed hwritable => exact (wiping_setInode hfades).trans (wiping_unlink path)

-- Only the name of the file can go.
theorem Attempt.entry_ne {out : Except SessionError Unit × Disk} (h : Attempt i path d out)
    (hne : p ≠ path) : out.2.entry p = d.entry p := by
  cases h with
  | failed hfades => rfl
  | deleted hfades hzeroed hwritable => rw [Disk.entry_unlink, if_neg hne, Disk.entry_setInode]

-- Only the file the path leads to is touched.
theorem Attempt.inodes_ne {out : Except SessionError Unit × Disk} (h : Attempt i path d out)
    {j : Nat} (hne : j ≠ i) : out.2.inodes j = d.inodes j := by
  cases h with
  | failed hfades => exact Disk.inodes_setInode_ne hne
  | deleted hfades hzeroed hwritable => exact Disk.inodes_setInode_ne hne

-- A deletion that went well.
theorem Attempt.done {out : Except SessionError Unit × Disk} (h : Attempt i path d out)
    (hok : out.1 = .ok ()) : Zeroed (d.inodes i) (out.2.inodes i) ∧ (out.2.inodes i).readonly = false ∧
      out.2.entry path = none := by
  cases h with
  | failed hfades => cases hok
  | deleted hfades hzeroed hwritable =>
      rw [Disk.entry_unlink, if_pos rfl, Disk.inodes_unlink, Disk.inodes_setInode_self]
      exact ⟨hzeroed, hwritable, rfl⟩

-- One entry of the listing: it is passed over, or the file it leads to is deleted as far as that goes.
theorem deleteEach_cons (path : Path) (rest : List Path) (firstError : Option SessionError) (d : Disk) :
    ((skipped path = true ∨ d.fileOf path = none) ∧
      deleteEach skipped stops (path :: rest) firstError d = deleteEach skipped stops rest firstError d) ∨
    ∃ i next, skipped path = false ∧ d.fileOf path = some i ∧
      Attempt i path d (secureDelete (stops path) path d) ∧
      (next = none ↔ firstError = none ∧ (secureDelete (stops path) path d).1 = .ok ()) ∧
      deleteEach skipped stops (path :: rest) firstError d =
        deleteEach skipped stops rest next (secureDelete (stops path) path d).2 := by
  by_cases hskip : skipped path = true ∨ d.fileOf path = none
  · exact .inl ⟨hskip, by rw [deleteEach, if_pos hskip]⟩
  · obtain ⟨hlooked, hfile⟩ := not_or.mp hskip
    obtain ⟨i, hfile⟩ := Option.ne_none_iff_exists'.mp hfile
    rw [Bool.not_eq_true] at hlooked
    have hattempt : Attempt i path d (secureDelete (stops path) path d) := attempt_secureDelete hfile
    refine .inr ⟨i, ?_⟩
    rw [deleteEach, if_neg hskip]
    rcases hdelete : secureDelete (stops path) path d with ⟨e | ok, d'⟩
    · exact ⟨firstError.or (some e), hlooked, hfile, hdelete ▸ hattempt, by simp, rfl⟩
    · exact ⟨firstError, hlooked, hfile, hdelete ▸ hattempt, by simp, rfl⟩

theorem wiping_deleteEach : Wiping d (deleteEach skipped stops listed firstError d).2 := by
  induction listed generalizing firstError d with
  | nil => exact Wiping.refl d
  | cons path rest ih =>
      rcases @deleteEach_cons skipped stops path rest firstError d with
        ⟨-, hrun⟩ | ⟨i, next, -, -, hattempt, -, hrun⟩
      · rw [hrun]
        exact ih
      · rw [hrun]
        exact hattempt.wiping.trans ih

-- An error is never forgotten.
theorem deleteEach_error (h : (deleteEach skipped stops listed firstError d).1 = none) :
    firstError = none := by
  induction listed generalizing firstError d with
  | nil => exact h
  | cons path rest ih =>
      rcases @deleteEach_cons skipped stops path rest firstError d with
        ⟨-, hrun⟩ | ⟨i, next, -, -, -, hnext, hrun⟩
      · rw [hrun] at h
        exact ih h
      · rw [hrun] at h
        exact (hnext.mp (ih h)).1

-- A name that is not taken up stays.
theorem entry_deleteEach (hp : p ∈ listed → skipped p = true) :
    (deleteEach skipped stops listed firstError d).2.entry p = d.entry p := by
  induction listed generalizing firstError d with
  | nil => rfl
  | cons path rest ih =>
      have hrest : p ∈ rest → skipped p = true := fun hmem => hp (List.mem_cons_of_mem _ hmem)
      rcases @deleteEach_cons skipped stops path rest firstError d with
        ⟨-, hrun⟩ | ⟨i, next, hlooked, -, hattempt, -, hrun⟩
      · rw [hrun]
        exact ih hrest
      · have hne : p ≠ path := by
          rintro rfl
          rw [hp List.mem_cons_self] at hlooked
          cases hlooked
        rw [hrun, ih hrest, hattempt.entry_ne hne]

-- A file that is taken up is overwritten and gone, where its own calls go well or no error is reported.
theorem deleted_deleteEach (hmem : p ∈ listed) (hlooked : skipped p = false)
    (hentry : d.entry p = some (.file i))
    (hgood : stops p = none ∨ (deleteEach skipped stops listed firstError d).1 = none) :
    Zeroed (d.inodes i) ((deleteEach skipped stops listed firstError d).2.inodes i) ∧
      (deleteEach skipped stops listed firstError d).2.entry p = none := by
  induction listed generalizing firstError d with
  | nil => cases hmem
  | cons path rest ih =>
      have hstep := @deleteEach_cons skipped stops path rest firstError d
      by_cases hpath : p = path
      · subst hpath
        rcases hstep with ⟨hpassed, -⟩ | ⟨j, next, -, hfile, hattempt, hnext, hrun⟩
        · rw [hlooked, Disk.fileOf_self hentry] at hpassed
          exact absurd hpassed (by simp)
        · obtain rfl : i = j := Option.some.inj ((Disk.fileOf_self hentry).symm.trans hfile)
          have hok : (secureDelete (stops p) p d).1 = .ok () := by
            rcases hgood with hcalm | hnone
            · rw [hcalm]
              exact secureDelete_calm hfile
            · rw [hrun] at hnone
              exact (hnext.mp (deleteEach_error hnone)).2
          obtain ⟨hzeroed, -, hgone⟩ := hattempt.done hok
          rw [hrun]
          exact ⟨hzeroed.fades (wiping_deleteEach.files i), wiping_deleteEach.names.entry_eq_none hgone⟩
      · have hin : p ∈ rest := (List.mem_cons.mp hmem).resolve_left hpath
        rcases hstep with ⟨-, hrun⟩ | ⟨j, next, -, -, hattempt, -, hrun⟩
        · rw [hrun] at hgood ⊢
          exact ih hin hentry hgood
        · rw [hrun] at hgood ⊢
          obtain ⟨hzeroed, hgone⟩ := ih hin ((hattempt.entry_ne hpath).trans hentry) hgood
          exact ⟨(hattempt.wiping.files i).zeroed hzeroed, hgone⟩

-- Where a path led to another file, it still does.
theorem Attempt.fileOf {out : Except SessionError Unit × Disk} {j : Nat} (h : Attempt j path d out)
    (hpath : d.fileOf path = some j) (hq : d.fileOf q = some i) (hne : i ≠ j) :
    out.2.fileOf q = some i := by
  cases h with
  | failed hfades => rw [Disk.fileOf_setInode, hq]
  | deleted hfades hzeroed hwritable =>
      rename_i y
      have hset : (d.setInode j y).fileOf q = some i := Disk.fileOf_setInode.trans hq
      refine (Disk.fileOf_unlink hset).resolve_right fun hsame => ?_
      rw [Disk.fileOf_setInode, hpath] at hsame
      exact hne (Option.some.inj hsame).symm

-- Whatever path led to a file, in a run without an error the file is overwritten: if the path is
-- broken by then, the name that broke it led to the same file.
theorem zeroed_deleteEach (hmem : q ∈ listed) (hlooked : skipped q = false) (hfile : d.fileOf q = some i)
    (hnone : (deleteEach skipped stops listed firstError d).1 = none) :
    Zeroed (d.inodes i) ((deleteEach skipped stops listed firstError d).2.inodes i) ∧
      ((deleteEach skipped stops listed firstError d).2.inodes i).readonly = false := by
  induction listed generalizing firstError d with
  | nil => cases hmem
  | cons path rest ih =>
      rcases @deleteEach_cons skipped stops path rest firstError d with
        ⟨hpassed, hrun⟩ | ⟨j, next, -, hpath, hattempt, hnext, hrun⟩
      · have hne : q ≠ path := by
          rintro rfl
          rw [hlooked, hfile] at hpassed
          exact absurd hpassed (by simp)
        rw [hrun] at hnone ⊢
        exact ih ((List.mem_cons.mp hmem).resolve_left hne) hfile hnone
      · rw [hrun] at hnone ⊢
        by_cases hsame : i = j
        · subst hsame
          obtain ⟨hzeroed, hwritable, -⟩ := hattempt.done (hnext.mp (deleteEach_error hnone)).2
          have hrest := (@wiping_deleteEach (secureDelete (stops path) path d).2 skipped stops rest next).files i
          refine ⟨hzeroed.fades hrest, Bool.eq_false_iff.mpr fun hreadonly => ?_⟩
          rw [hrest.readonly hreadonly] at hwritable
          cases hwritable
        · have hne : q ≠ path := by
            rintro rfl
            exact hsame (Option.some.inj (hfile.symm.trans hpath))
          have hrest := ih ((List.mem_cons.mp hmem).resolve_left hne) (hattempt.fileOf hpath hfile hsame) hnone
          rwa [hattempt.inodes_ne hsame] at hrest

-- A file that no path of the listing leads to is left alone.
theorem inodes_deleteEach (hfree : ∀ q ∈ listed, skipped q = false → d.fileOf q ≠ some i) :
    (deleteEach skipped stops listed firstError d).2.inodes i = d.inodes i := by
  induction listed generalizing firstError d with
  | nil => rfl
  | cons path rest ih =>
      rcases @deleteEach_cons skipped stops path rest firstError d with
        ⟨-, hrun⟩ | ⟨j, next, hlooked, hpath, hattempt, -, hrun⟩
      · rw [hrun]
        exact ih fun q hq => hfree q (List.mem_cons_of_mem _ hq)
      · have hne : i ≠ j := by
          rintro rfl
          exact hfree path List.mem_cons_self hlooked hpath
        rw [hrun, ih fun q hq hq' hfile => hfree q (List.mem_cons_of_mem _ hq) hq'
          (hattempt.wiping.names.fileOf hfile), hattempt.inodes_ne hne]

-- A directory is no file, so it is left to the removal.
theorem dir_deleteEach (hdir : d.entry p = some .dir) :
    (deleteEach skipped stops listed firstError d).2.entry p = some .dir := by
  induction listed generalizing firstError d with
  | nil => exact hdir
  | cons path rest ih =>
      rcases @deleteEach_cons skipped stops path rest firstError d with
        ⟨-, hrun⟩ | ⟨i, next, -, hpath, hattempt, -, hrun⟩
      · rw [hrun]
        exact ih hdir
      · have hne : p ≠ path := by
          rintro rfl
          have hreal : d.real p = some p := by rw [Disk.real, Disk.follow_succ, hdir]
          rw [Disk.fileOf, hreal, Option.bind_some, hdir] at hpath
          cases hpath
        rw [hrun]
        exact ih ((hattempt.entry_ne hne).trans hdir)

-- Where no call on a file fails, no error is met.
theorem deleteEach_quiet (hquiet : ∀ p, stops p = none) (hnone : firstError = none) :
    (deleteEach skipped stops listed firstError d).1 = none := by
  induction listed generalizing firstError d with
  | nil => exact hnone
  | cons path rest ih =>
      rcases @deleteEach_cons skipped stops path rest firstError d with
        ⟨-, hrun⟩ | ⟨i, next, -, hpath, -, hnext, hrun⟩
      · rw [hrun]
        exact ih hnone
      · rw [hrun]
        refine ih (hnext.mpr ⟨hnone, ?_⟩)
        rw [hquiet]
        exact secureDelete_calm hpath

end

-- Names below a directory are gone, and nothing else has changed.
structure Removes (dir : Path) (d d' : Disk) : Prop where
  names : d.Shrinks d'
  inodes : d'.inodes = d.inodes
  outside : ∀ q, ¬dir <+: q → d'.entry q = d.entry q

section

variable {w : Workspace} {listing : Listing} {faults : Faults} {d d' d'' : Disk} {dir path : Path}
  {depth : Nat}

theorem Removes.refl (dir : Path) (d : Disk) : Removes dir d d :=
  ⟨Disk.Shrinks.refl d, rfl, fun _ _ => rfl⟩

theorem Removes.trans (h : Removes dir d d') (h' : Removes dir d' d'') : Removes dir d d'' :=
  ⟨h.names.trans h'.names, h'.inodes.trans h.inodes, fun q hq => (h'.outside q hq).trans (h.outside q hq)⟩

theorem Removes.mono (h : Removes path d d') (hle : dir <+: path) : Removes dir d d' :=
  ⟨h.names, h.inodes, fun q hq => h.outside q fun hpath => hq (hle.trans hpath)⟩

theorem Removes.wiping (h : Removes dir d d') : Wiping d d' where
  names := h.names
  files := by
    intro i
    rw [h.inodes]
    exact Fades.refl _

theorem removes_removeName (faults : Faults) (path : Path) (d : Disk) :
    Removes path d (removeName faults path d).2 := by
  unfold removeName
  split
  · exact Removes.refl path d
  · refine ⟨Disk.shrinks_unlink path, rfl, fun q hq => ?_⟩
    rw [Disk.entry_unlink, if_neg]
    rintro rfl
    exact hq (List.prefix_refl _)

theorem entry_removeName (h : (removeName faults path d).1 = true) :
    (removeName faults path d).2.entry path = none := by
  unfold removeName at h ⊢
  split at h
  · cases h
  · rename_i hfree
    rw [if_neg hfree, Disk.entry_unlink, if_pos rfl]

theorem removes_removeEach {step : Path → Disk → Bool × Disk} {paths : List Path}
    (hstep : ∀ path ∈ paths, ∀ d, Removes dir d (step path d).2) :
    Removes dir d (removeEach step paths d).2 := by
  induction paths generalizing d with
  | nil => exact Removes.refl dir d
  | cons path rest ih =>
      have hnow := hstep path List.mem_cons_self d
      have hrest := fun p hp => hstep p (List.mem_cons_of_mem _ hp)
      unfold removeEach
      rcases hrun : step path d with ⟨stuck | gone, d'⟩
      · rw [hrun] at hnow
        exact hnow
      · rw [hrun] at hnow
        exact hnow.trans (ih hrest)

theorem prefix_of_mem_children (h : path ∈ d.children dir) : dir <+: path := by
  obtain ⟨-, hdir, -⟩ := Disk.mem_children.mp h
  rw [← hdir]
  exact List.dropLast_prefix path

theorem removes_removeEntry {below : Path → Disk → Bool × Disk}
    (hbelow : ∀ d, Removes path d (below path d).2) : Removes path d (removeEntry faults below path d).2 := by
  unfold removeEntry
  split
  · exact Removes.refl path d
  · exact hbelow d
  · exact removes_removeName faults path d

-- However far it gets, the removal of a tree stays inside.
theorem removes_removeBelow : Removes dir d (removeBelow faults depth dir d).2 := by
  induction depth generalizing dir d with
  | zero => exact Removes.refl dir d
  | succ depth ih =>
      have heach : Removes dir d
          (removeEach (removeEntry faults (removeBelow faults depth)) (d.children dir) d).2 :=
        removes_removeEach fun path hpath d =>
          (removes_removeEntry fun d => ih).mono (prefix_of_mem_children hpath)
      unfold removeBelow
      split
      · exact Removes.refl dir d
      · split
        · rename_i hrun
          rw [hrun] at heach
          exact heach
        · rename_i hrun
          rw [hrun] at heach
          exact heach.trans (removes_removeName faults dir _)

-- The error of a removal, if any, is the one it stopped at.
theorem removeDirAll_dir (h : d.entry path = some .dir) : removeDirAll faults path d =
    (if (removeBelow faults d.depth path d).1 then .ok () else .error .other,
      (removeBelow faults d.depth path d).2) := by
  simp only [removeDirAll, h]
  rcases removeBelow faults d.depth path d with ⟨stuck | gone, d'⟩ <;> rfl

theorem removeDirAll_symlink {target : Path} (h : d.entry path = some (.symlink target)) :
    removeDirAll faults path d =
      (if (removeName faults path d).1 then .ok () else .error .other, (removeName faults path d).2) := by
  simp only [removeDirAll, h]
  rcases removeName faults path d with ⟨stuck | gone, d'⟩ <;> rfl

theorem removes_removeDirAll (faults : Faults) (path : Path) (d : Disk) :
    Removes path d (removeDirAll faults path d).2 := by
  cases hentry : d.entry path with
  | none =>
      rw [removeDirAll, hentry]
      exact Removes.refl path d
  | some e =>
      cases e with
      | file i =>
          rw [removeDirAll, hentry]
          exact Removes.refl path d
      | symlink target =>
          rw [removeDirAll_symlink hentry]
          exact removes_removeName faults path d
      | dir =>
          rw [removeDirAll_dir hentry]
          exact removes_removeBelow

end

end Zbacs.Session.OnDisk
