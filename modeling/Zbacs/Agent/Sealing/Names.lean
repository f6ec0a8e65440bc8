import Zbacs.Agent.OwnerDevice.Theorems
import Zbacs.Agent.Reference
import Zbacs.Agent.Setup.Keys
import Zbacs.Core.Container.Padding
import Zbacs.Session.Names

namespace Zbacs.Agent

open Zbacs.Lib Zbacs.Core Zbacs.Session Zbacs.Agent.Setup

-- A name the file system can have for an entry of a directory.
structure EntryName (name : String) : Prop where
  nonempty : name ≠ ""
  notDot : name ≠ "." ∧ name ≠ ".."
  chars : ∀ c ∈ name.toList, c ≠ '/' ∧ c.toNat ≠ 0

-- A name of a file that can be locked: no container, and short enough for one.
structure Lockable (name : String) : Prop where
  entry : EntryName name
  unlocked : (extension [name]).any (fun e => e.toList.map Char.toLower = sealedExt.toList) = false
  short : (utf8 name).length ≤ maxNameLen

-- The name is one the workspace does well with: it is an entry of its own once it is let through,
-- and it is let through where a file was locked under it.
structure Tame (reserved : String → Bool) (name : String) : Prop where
  plain : Allowed name → Plain reserved name
  lockable : Lockable name → '\\' ∉ name.toList ∧ ¬['.', '.'] <+: name.toList

-- What the workspace takes is directly inside it on either system, and it takes whatever name a
-- file is locked under.
structure NameConfined (P : Primitives) (owner : OwnerKeys P) (profile : DeviceProfile)
    (reserved : String → Bool) (name : String) : Prop where
  inside : ∀ (w : Workspace) (p : Path), w.file name = .ok p →
    (∃ entry, p = w.root ++ [entry]) ∧ ∃ entry, windowsPlace reserved name = .child entry
  taken : ∀ (request : SealRequest) (run : SealRun) (fs fs' : Fs) (result : SealResult),
    fileName request.path = name → EntryName name →
    sealNow P owner profile request run fs = (.ok result, fs') →
    ∀ w : Workspace, ∃ p, w.file name = .ok p

section

variable {P : Primitives} {owner : OwnerKeys P} {profile : DeviceProfile} {request : SealRequest}
  {run : SealRun} {fs fs' : Fs} {result : SealResult} {name : String}

theorem extension_eq (p : Path) : extension p = extension [fileName p] := rfl

-- What is fit to be locked is no container yet.
theorem unlocked_of_examine {readable : Bool} {p : Path} (hok : (examine readable p fs).ok = true) :
    (extension p).any (fun e => e.toList.map Char.toLower = sealedExt.toList) = false := by
  by_contra hext
  rw [Bool.not_eq_false] at hext
  unfold examine Candidate.ok at hok
  split at hok
  · cases hok
  · split at hok <;> cases hok

-- What was locked had a name that can be.
theorem lockable_of_sealNow (hname : fileName request.path = name) (hentry : EntryName name)
    (hseal : sealNow P owner profile request run fs = (.ok result, fs')) : Lockable name := by
  subst hname
  unfold sealNow at hseal
  rcases hwrite : writeLocked P owner profile request run fs with ⟨e | header, fs₁⟩
  · rw [hwrite] at hseal
    cases hseal
  obtain ⟨hok, plaintext, out, headerBytes, frames, s⟩ := writeLocked_eq_ok (congrArg Prod.fst hwrite)
  obtain ⟨padded, hpad, -⟩ := s.header.name
  refine ⟨hentry, ?_, (padName_eq_ok.mp hpad).1⟩
  rw [← extension_eq]
  exact unlocked_of_examine hok

-- A file of that name, and nothing beside it.
def alone (name : String) : Fs := Fs.empty.insert [name] (.file [0] false)

def lockAlone (name : String) : SealRequest := ⟨[name], .readOnly, .hour, .once⟩

def lockRun : SealRun := ⟨true, ⟨.replicate 32 0, .replicate 16 0, .replicate 16 0, fun _ => []⟩, .calm⟩

theorem lookup_alone {q : Path} :
    (alone name).lookup q = if q = [name] then some (.file [0] false) else none := by
  unfold alone
  split
  · rename_i h
    rw [h, Fs.lookup_insert_self]
  · rename_i h
    rw [Fs.lookup_insert_ne _ h]
    rfl

theorem lookup_alone_ne_dir (q : Path) : (alone name).lookup q ≠ some .dir := by
  rw [lookup_alone]
  split <;> simp

-- Nothing stands in the way of the container of a file that is alone.
theorem lookup_alone_sealedPath : (alone name).lookup (sealedPath [name]) = none := by
  have hne : sealedPath [name] ≠ [name] := by
    intro heq
    have hname := congrArg String.length (List.cons.inj heq).1
    rw [String.length_append, String.length_append] at hname
    have hdot : (".").length = 1 := rfl
    change name.length + _ + _ = name.length at hname
    omega
  rw [lookup_alone, if_neg hne]

theorem examine_alone (hname : Lockable name) :
    examine true [name] (alone name) = ⟨[name], name, some 1, none⟩ := by
  have hthere : (alone name).lookup [name] = some (.file [0] false) := by rw [lookup_alone, if_pos rfl]
  unfold examine
  simp only [hthere, hname.unlocked, lookup_alone_sealedPath, Bool.not_true, Bool.false_eq_true, if_false,
    List.cons_ne_nil, Option.isSome_none, List.length_singleton]
  rfl

-- A file with such a name can be locked, by any owner.
theorem sealNow_alone (hP : P.Lawful) (owner : OwnerKeys P) (profile : DeviceProfile)
    (hname : Lockable name) : ∃ result fs',
      sealNow P owner profile (lockAlone name) lockRun (alone name) = (.ok result, fs') := by
  have hopts : (sealOpts profile (lockAlone name)).Sealable P :=
    sealOpts_sealable profile hname.short
  obtain ⟨h, out, headerBytes, frames, fs', hseal, -, s, hthere, -⟩ := sealSignedToPath_ok hP hopts
    owner.sealing.validKey owner.signing lockRun.rng SealEnv.calm_quiet
    (show (alone name).readFile (lockAlone name).path = some [0] by
      simp only [Fs.readFile, lockAlone, lookup_alone, if_pos])
    (by decide) (lookup_alone_ne_dir _)
    (show (alone name).lookup (sealedPath (lockAlone name).path) ≠ some .dir from lookup_alone_ne_dir _)
  have hfree : (examine lockRun.readable (lockAlone name).path (alone name)).ok = true := by
    rw [show examine lockRun.readable (lockAlone name).path = examine true [name] from rfl,
      examine_alone hname]
    rfl
  have hwrite : sealToPath P (lockAlone name).path (sealedPath (lockAlone name).path) owner
      (sealOpts profile (lockAlone name)) lockRun.rng lockRun.env (alone name) = (.ok h, fs') := hseal
  have hback := s.inspect_eq hP hopts.withinLimits lockRun.env.offer
  unfold sealNow writeLocked
  simp only [hfree, hwrite, hthere, hback, Bool.not_true, Bool.false_eq_true, if_false]
  exact ⟨_, _, rfl⟩

-- The name a file is locked under is exactly such a name.
theorem lockable_iff (hP : P.Lawful) (owner : OwnerKeys P) (profile : DeviceProfile) :
    Lockable name ↔ EntryName name ∧ ∃ request run fs fs' result, fileName request.path = name ∧
      sealNow P owner profile request run fs = (.ok result, fs') := by
  constructor
  · intro h
    obtain ⟨result, fs', hseal⟩ := sealNow_alone hP owner profile h
    exact ⟨h.entry, lockAlone name, _, _, fs', result, rfl, hseal⟩
  · rintro ⟨hentry, request, run, fs, fs', result, hname, hseal⟩
    exact lockable_of_sealNow hname hentry hseal

-- A name is confined exactly when it is tame.
theorem nameConfined_iff (hP : P.Lawful) (owner : OwnerKeys P) (profile : DeviceProfile)
    (reserved : String → Bool) (name : String) :
    NameConfined P owner profile reserved name ↔ Tame reserved name := by
  constructor
  · intro h
    refine ⟨fun hallowed => ?_, fun hlock => ?_⟩
    · exact windowsPlace_iff.mp
        (h.inside ⟨[]⟩ _ (Workspace.file_eq_ok_iff.mpr ⟨hallowed, rfl⟩)).2
    · obtain ⟨result, fs', hseal⟩ := sealNow_alone hP owner profile hlock
      obtain ⟨p, hfile⟩ := h.taken _ _ _ _ _ rfl hlock.entry hseal ⟨[]⟩
      have hallowed := (Workspace.file_eq_ok_iff.mp hfile).1
      exact ⟨hallowed.noBackslash, hallowed.noParent⟩
  · intro h
    refine ⟨fun w p hfile => ?_, fun request run fs fs' result hname hentry hseal w => ?_⟩
    · obtain ⟨hallowed, rfl⟩ := Workspace.file_eq_ok_iff.mp hfile
      have hplain := h.plain hallowed
      exact ⟨child_iff.mpr hplain.ne_dot, windowsPlace_iff.mpr hplain⟩
    · obtain ⟨hnoBackslash, hnoParent⟩ := h.lockable (lockable_of_sealNow hname hentry hseal)
      have hnoSlash : '/' ∉ name.toList := fun hmem => (hentry.chars _ hmem).1 rfl
      exact ⟨_, Workspace.file_eq_ok_iff.mpr
        ⟨⟨hentry.nonempty, hnoSlash, hnoBackslash, hnoParent⟩, rfl⟩⟩

end

namespace Reference

open Zbacs.Agent.Setup.Reference

def devices (name : String) : Bool := name = "NUL" ∨ name = "NUL.txt"

theorem report_nameConfined :
    NameConfined libraries.toPrimitives Core.Reference.owner setUpProfile devices "report.docx" :=
  (nameConfined_iff libraries_lawful Core.Reference.owner setUpProfile devices "report.docx").mpr
    ⟨fun _ => by decide, fun _ => by decide⟩

-- What gets through and is no file of the workspace: the workspace itself, a file on a drive, and a
-- stream of a file.
example : (Allowed "." ∧ Workspace.file ⟨["w"]⟩ "." = .ok ["w"]) ∧
    (Allowed "C:notes" ∧ windowsPlace devices "C:notes" = .elsewhere) ∧
    (Allowed "a.txt:b" ∧ windowsPlace devices "a.txt:b" = .stream) ∧
    (Allowed " " ∧ windowsPlace devices " " = .directory) := by
  decide

-- A file of this name can be locked, and is then refused by every workspace.
theorem notes_lockable : Lockable "..notes" := by
  have hchars : "..notes".toList.all (fun c => c ≠ '/' ∧ c.toNat ≠ 0) = true := by decide
  refine ⟨⟨by decide, by decide, fun c hc => ?_⟩, by decide, by decide⟩
  exact of_decide_eq_true (List.all_eq_true.mp hchars c hc)

theorem not_nameConfined :
    ¬NameConfined libraries.toPrimitives Core.Reference.owner setUpProfile devices "." ∧
    ¬NameConfined libraries.toPrimitives Core.Reference.owner setUpProfile devices "C:notes" ∧
    ¬NameConfined libraries.toPrimitives Core.Reference.owner setUpProfile devices "..notes" := by
  have hdot : Workspace.file ⟨["w"]⟩ "." = .ok ["w"] := by decide
  have hdrive : Workspace.file ⟨["w"]⟩ "C:notes" = .ok ["w", "C:notes"] := by decide
  have hparent : Workspace.file ⟨["w"]⟩ "..notes" = .error .badFileName := by decide
  refine ⟨fun h => ?_, fun h => ?_, fun h => ?_⟩
  · obtain ⟨⟨entry, heq⟩, -⟩ := h.inside _ _ hdot
    exact absurd (congrArg List.length heq) (by simp)
  · obtain ⟨-, entry, heq⟩ := h.inside _ _ hdrive
    rw [show windowsPlace devices "C:notes" = .elsewhere by decide] at heq
    cases heq
  · obtain ⟨result, fs', hseal⟩ := sealNow_alone libraries_lawful Core.Reference.owner setUpProfile
      notes_lockable
    obtain ⟨p, hfile⟩ := h.taken _ _ _ _ _ rfl notes_lockable.entry hseal ⟨["w"]⟩
    rw [hparent] at hfile
    cases hfile

end Reference

end Zbacs.Agent
