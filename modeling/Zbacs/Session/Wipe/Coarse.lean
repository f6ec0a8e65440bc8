import Zbacs.Session.Wipe.Frame

namespace Zbacs.Session.OnDisk

open Zbacs.Lib

-- A disk as the coarser filesystem has it: a link is no file.
def node : Disk.Seen → Node
  | .file _ x => .file x.content x.readonly
  | _ => .dir

def toFs (d : Disk) : Fs := ⟨d.names.map fun e => (e.1, node (d.see e.2))⟩

section

variable {w : Workspace} {faults : Faults} {d : Disk}

theorem lookup_toFs (d : Disk) (q : Path) : (toFs d).lookup q = (d.seen q).map node := by
  unfold Fs.lookup toFs Disk.seen Disk.entry
  rw [List.find?_map, Option.map_map, Option.map_map, Option.map_map]
  rfl

-- In a tree from which nothing leads outside, a wipe in which nothing fails leaves what the coarser one
-- leaves.
theorem lookup_wipe_toFs (hquiet : faults.Quiet) (hroot : d.entry w.root = some .dir)
    (htree : ∀ q, w.root <+: q → d.entry q ≠ none → Below d w.root q)
    (hinside : Harmless w.root (listed w .calm d) d) (q : Path) :
    (toFs (wipe w .calm faults d).2).lookup q = (w.wipe .none (toFs d)).2.lookup q := by
  rw [lookup_toFs]
  by_cases hq : w.root <+: q
  · rw [Workspace.lookup_wipe rfl (toFs d) hq, Option.map_eq_none_iff, Disk.seen_eq_none, wipe_snd]
    have hkept : (deleteFiles w .calm faults d).2.entry w.root = some .dir := dir_deleteEach hroot
    have hremoved := removeDirAll_quiet hquiet hkept
    cases hthere : d.entry q with
    | none =>
        have hgone : (deleteFiles w .calm faults d).2.entry q = none :=
          wiping_deleteEach.names.entry_eq_none hthere
        exact (removes_removeDirAll faults w.root _).names.entry_eq_none hgone
    | some e =>
        have hbelow := htree q hq (by rw [hthere]; exact Option.some_ne_none e)
        exact gone_removeDirAll hkept (by rw [hremoved]; simp)
          ⟨hq, fun r hr hrq hne => dir_deleteEach (hbelow.dirs r hr hrq hne)⟩
  · rw [Workspace.lookup_wipe_outside (toFs d) hq, lookup_toFs,
      staysInside_of_harmless hinside .calm faults q hq]

end

end Zbacs.Session.OnDisk
