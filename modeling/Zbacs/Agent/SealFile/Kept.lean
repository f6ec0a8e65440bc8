import Zbacs.Agent.SealFile
import Zbacs.Core.Path.Theorems

namespace Zbacs.Agent

open Zbacs.Lib Zbacs.Core Zbacs.Session Zbacs.Agent.Setup

-- What the lock screen does to a disk: a file is locked, or an original is erased.
inductive LockAction where
  | lock (profile : DeviceProfile) (request : SealRequest) (run : SealRun)
  | erase (path : Path) (outcome : Deletion)

section

variable (P : Primitives) (owner : OwnerKeys P)

-- The disk after an action, whether it went through or not.
def LockAction.onDisk (fs : Fs) : LockAction → Fs
  | .lock profile request run => (sealNow P owner profile request run fs).2
  | .erase path outcome => (shredOriginal path outcome fs).2

def afterActions (fs : Fs) : List LockAction → Fs
  | [] => fs
  | a :: rest => afterActions (a.onDisk P owner fs) rest

variable {P : Primitives} {owner : OwnerKeys P} {fs : Fs}

theorem onDisk_lock (profile : DeviceProfile) (request : SealRequest) (run : SealRun) :
    (LockAction.lock profile request run).onDisk P owner fs = (sealNow P owner profile request run fs).2 :=
  rfl

theorem onDisk_erase (path : Path) (outcome : Deletion) :
    (LockAction.erase path outcome).onDisk P owner fs = (shredOriginal path outcome fs).2 := rfl

theorem afterActions_nil : afterActions P owner fs [] = fs := rfl

theorem afterActions_cons (a : LockAction) (rest : List LockAction) :
    afterActions P owner fs (a :: rest) = afterActions P owner (a.onDisk P owner fs) rest := rfl

end

section Names

-- How the name ends that a container is written under before it takes its own.
def tmpSuffix : String := ".zbacs.tmp"

theorem fileName_concat (front : Path) (name : String) : fileName (front ++ [name]) = name := by
  rw [fileName, List.getLast?_concat, Option.getD_some]

theorem fileName_sealedPath (p : Path) : fileName (sealedPath p) = fileName p ++ "." ++ sealedExt :=
  fileName_concat _ _

theorem eq_of_fileName {p : Path} (hname : fileName p ≠ "") : p = p.dropLast ++ [fileName p] := by
  rcases List.eq_nil_or_concat p with rfl | ⟨front, name, rfl⟩
  · exact absurd rfl hname
  · rw [List.concat_eq_append, fileName_concat, List.dropLast_concat]

-- Two files have two containers.
theorem sealedPath_inj {p q : Path} (hname : fileName p ≠ "") (h : sealedPath q = sealedPath p) :
    q = p := by
  unfold sealedPath at h
  obtain ⟨hfront, hlast⟩ := List.append_inj' h rfl
  have hfile : fileName q = fileName p := by
    have hchars := congrArg String.toList (List.cons.inj hlast).1
    simp only [String.toList_append, List.append_cancel_right_eq] at hchars
    exact String.toList_inj.mp hchars
  calc q = q.dropLast ++ [fileName q] := eq_of_fileName (hfile ▸ hname)
    _ = p.dropLast ++ [fileName p] := by rw [hfront, hfile]
    _ = p := (eq_of_fileName hname).symm

theorem fileName_sealedPath_ne (p : Path) : fileName (sealedPath p) ≠ "" := by
  intro h
  rw [fileName_sealedPath] at h
  have hlen := congrArg String.length h
  rw [String.length_append, String.length_append] at hlen
  simp [sealedExt] at hlen

theorem sealedPath_ne (p : Path) : sealedPath p ≠ p := by
  intro h
  have hlen := congrArg (fun q => (fileName q).length) h
  simp only [fileName_sealedPath, String.length_append] at hlen
  have hext : sealedExt.length = 5 := by decide
  omega

theorem toList_fileName_sealedPath (p : Path) :
    (fileName (sealedPath p)).toList = (fileName p).toList ++ '.' :: sealedExt.toList := by
  rw [fileName_sealedPath, String.toList_append, String.toList_append]
  exact List.append_assoc _ _ _

-- What follows the last dot of a container's name is five characters long.
theorem tail_sealedPath (p : Path) :
    ((fileName (sealedPath p)).toList.reverse.takeWhile (· ≠ '.')).length = 5 := by
  rw [toList_fileName_sealedPath, List.reverse_append]
  rfl

-- A container is told by its extension.
theorem extension_sealedPath {p : Path} (hname : fileName p ≠ "") :
    extension (sealedPath p) = some sealedExt := by
  have hlen : (fileName (sealedPath p)).toList.length = (fileName p).toList.length + 6 := by
    rw [toList_fileName_sealedPath, List.length_append]
    rfl
  have hpos : (fileName p).toList.length ≠ 0 := by
    rw [String.length_toList]
    exact fun h => hname (String.length_eq_zero_iff.mp h)
  have hdrop : (fileName (sealedPath p)).toList.drop ((fileName (sealedPath p)).toList.length - 5) =
      sealedExt.toList := by
    rw [hlen, toList_fileName_sealedPath, show (fileName p).toList.length + 6 - 5 =
      (fileName p).toList.length + 1 by omega, List.drop_append]
    simp
  unfold extension
  simp only [tail_sealedPath]
  rw [if_neg (by omega), hdrop, String.ofList_toList]

-- The name a container is written under ends in one way, and no container's does.
theorem tmpSuffix_suffix (p : Path) :
    tmpSuffix.toList <:+ (fileName (withExtension (sealedPath p) "zbacs.tmp")).toList := by
  have hlast : (sealedPath p).getLast? = some (fileName (sealedPath p)) := by
    rw [fileName_sealedPath, sealedPath, List.getLast?_concat]
  unfold withExtension
  simp only [hlast, fileName_concat, String.toList_ofList]
  exact List.suffix_append _ _

theorem not_tmpSuffix_suffix_sealedPath (p : Path) :
    ¬tmpSuffix.toList <:+ (fileName (sealedPath p)).toList := by
  intro h
  rw [← List.reverse_prefix, toList_fileName_sealedPath, List.reverse_append] at h
  obtain ⟨rest, h⟩ := h
  exact absurd (List.cons.inj h).1 (by decide)

-- A container in the making stands in no container's place.
theorem sealedPath_ne_tmp (p q : Path) : sealedPath p ≠ withExtension (sealedPath q) "zbacs.tmp" :=
  fun h => not_tmpSuffix_suffix_sealedPath p (h ▸ tmpSuffix_suffix q)

end Names

section

variable {P : Primitives} {owner : OwnerKeys P} {profile : DeviceProfile} {request : SealRequest}
  {run : SealRun} {fs : Fs}

-- A seal that fails leaves its target as it was.
theorem lookup_sealSignedToPath_error {inPath outPath : Path} {ownerPk : FixedBytes 32}
    {signer : SigningKeys} {opts : SealOptions} {rng : SealRandom} {env : SealEnv} {e : Core.Error}
    {fs' : Fs} {q : Path} (hq : q ≠ withExtension outPath "zbacs.tmp")
    (h : sealSignedToPath P inPath outPath ownerPk signer opts rng env fs = (.error e, fs')) :
    fs'.lookup q = fs.lookup q := by
  unfold sealSignedToPath at h
  cases hin : fs.readFile inPath with
  | none =>
      rw [hin] at h
      cases h
      rfl
  | some plaintext =>
      simp only [hin] at h
      split at h
      swap
      · cases h
        rfl
      split at h
      · cases h
        rfl
      split at h
      · cases h
        exact Fs.lookup_insert_ne _ hq
      split at h
      · cases h
        exact Fs.lookup_insert_ne _ hq
      split at h
      · cases h
        exact Fs.lookup_insert_ne _ hq
      split at h
      · cases h
        exact Fs.lookup_insert_ne _ hq
      · cases h

-- Reading back changes nothing.
theorem sealNow_snd :
    (sealNow P owner profile request run fs).2 = (writeLocked P owner profile request run fs).2 := by
  unfold sealNow
  rcases writeLocked P owner profile request run fs with ⟨e | header, fs'⟩
  · rfl
  · dsimp only
    cases fs'.readFile (sealedPath request.path) with
    | none => rfl
    | some container =>
        dsimp only
        cases inspect P (.ofData container run.env.offer) <;> rfl

-- What a lock can do to a disk: nothing; or, where no container stood, leave one that opens to the
-- document, or none. Beside it only the temporary file changes.
theorem lock_cases (hP : P.Lawful) :
    (sealNow P owner profile request run fs).2 = fs ∨
    ((examine run.readable request.path fs).ok = true ∧
      (∀ q, q ≠ sealedPath request.path → q ≠ withExtension (sealedPath request.path) "zbacs.tmp" →
        (sealNow P owner profile request run fs).2.lookup q = fs.lookup q) ∧
      ((sealNow P owner profile request run fs).2.lookup (sealedPath request.path) =
          fs.lookup (sealedPath request.path) ∨
        ∃ content container, fs.readFile request.path = some content ∧
          (sealNow P owner profile request run fs).2.readFile (sealedPath request.path) = some container ∧
          OpensTo P owner.sealing container content)) := by
  rw [sealNow_snd]
  by_cases hexamined : (examine run.readable request.path fs).ok = true
  swap
  · left
    rw [Bool.not_eq_true] at hexamined
    simp only [writeLocked, hexamined, Bool.not_false, if_true]
  right
  refine ⟨hexamined, ?_⟩
  unfold writeLocked
  simp only [hexamined, Bool.not_true, Bool.false_eq_true, if_false]
  have hothers : ∀ q, q ≠ sealedPath request.path →
      q ≠ withExtension (sealedPath request.path) "zbacs.tmp" →
      (sealToPath P request.path (sealedPath request.path) owner (sealOpts profile request) run.rng
        run.env fs).2.lookup q = fs.lookup q :=
    fun q hout htmp => lookup_sealSignedToPath _ _ _ _ hout htmp
  rcases hseal : sealToPath P request.path (sealedPath request.path) owner (sealOpts profile request)
    run.rng run.env fs with ⟨e | header, fs'⟩
  · rw [hseal] at hothers
    exact ⟨hothers, .inl (lookup_sealSignedToPath_error (sealedPath_ne_tmp _ _) hseal)⟩
  · rw [hseal] at hothers
    obtain ⟨content, container, headerBytes, frames, hcontent, hshort, s, hthere⟩ :=
      sealSignedToPath_eq_ok hseal
    have hopts : (sealOpts profile request).Sealable P := sealOpts_sealable profile s.name_eq.1
    have hfor : SealedFor P owner.sealing content container :=
      ⟨⟨_, _, _, _, _, _, s, hopts.withinLimits⟩, hshort⟩
    exact ⟨hothers, .inr ⟨content, container, hcontent, hthere, hfor.opensTo hP⟩⟩

-- Erasing asks for a container, and touches only the file it erases.
theorem erase_cases {path : Path} {outcome : Deletion} :
    (shredOriginal path outcome fs).2 = fs ∨
    (fs.exists? (sealedPath path) = true ∧ (∃ content, fs.readFile path = some content) ∧
      ∀ q, q ≠ path → (shredOriginal path outcome fs).2.lookup q = fs.lookup q) := by
  have hsnd : fs.exists? (sealedPath path) = true →
      (shredOriginal path outcome fs).2 = (Workspace.secureDelete outcome path fs).2 := by
    intro hlocked
    unfold shredOriginal
    simp only [hlocked, Bool.not_true, Bool.false_eq_true, if_false]
    rcases Workspace.secureDelete outcome path fs with ⟨e | ok, fs'⟩ <;> rfl
  cases hlocked : fs.exists? (sealedPath path) with
  | false =>
      left
      simp only [shredOriginal, hlocked, Bool.not_false, if_true]
  | true =>
      rw [hsnd hlocked]
      cases hthere : fs.readFile path with
      | none =>
          left
          unfold Workspace.secureDelete
          rw [hthere]
      | some content =>
          exact .inr ⟨rfl, ⟨content, rfl⟩, fun q hq => Workspace.lookup_secureDelete outcome hq⟩

-- A document that is not lost: it is where it was, and nothing stands where its container goes; or
-- its container stands there, and opens to it. Nothing lets the container itself be erased.
structure Kept (P : Primitives) (owner : OwnerKeys P) (p : Path) (content : Bytes) (fs : Fs) : Prop where
  beyond : fs.lookup (sealedPath (sealedPath p)) = none
  kept : (fs.readFile p = some content ∧ fs.lookup (sealedPath p) = none) ∨
    ∃ container, fs.readFile (sealedPath p) = some container ∧ OpensTo P owner.sealing container content

variable {p : Path} {content : Bytes}

-- A document whose name is not that of a temporary file.
structure Document (p : Path) : Prop where
  named : fileName p ≠ ""
  lasting : ¬tmpSuffix.toList <:+ (fileName p).toList

theorem Document.ne_tmp (hp : Document p) (q : Path) : p ≠ withExtension (sealedPath q) "zbacs.tmp" :=
  fun h => hp.lasting (h ▸ tmpSuffix_suffix q)

-- An action that leaves alone the document, its container and what is beyond.
theorem Kept.frame {fs' : Fs} (h : Kept P owner p content fs) (hbeyond : fs'.lookup
    (sealedPath (sealedPath p)) = fs.lookup (sealedPath (sealedPath p)))
    (hout : fs'.lookup (sealedPath p) = fs.lookup (sealedPath p))
    (hfile : fs.lookup (sealedPath p) = none → fs'.lookup p = fs.lookup p) :
    Kept P owner p content fs' where
  beyond := hbeyond.trans h.beyond
  kept := by
    rcases h.kept with ⟨hthere, hfree⟩ | ⟨container, hthere, hopens⟩
    · exact .inl ⟨(Fs.readFile_congr (hfile hfree)).trans hthere, hout.trans hfree⟩
    · exact .inr ⟨container, (Fs.readFile_congr hout).trans hthere, hopens⟩

theorem Kept.lock (hP : P.Lawful) (hp : Document p) (h : Kept P owner p content fs) :
    Kept P owner p content (sealNow P owner profile request run fs).2 := by
  rcases @lock_cases P owner profile request run fs hP with hsame | ⟨hok, hothers, hout⟩
  · rw [hsame]
    exact h
  have hnot : request.path ≠ sealedPath p := by
    intro heq
    have hext := unlocked_of_examine hok
    rw [heq, extension_sealedPath hp.named] at hext
    exact absurd hext (by decide)
  have hbeyond := hothers (sealedPath (sealedPath p))
    (fun heq => hnot (sealedPath_inj (fileName_sealedPath_ne p) heq.symm)) (sealedPath_ne_tmp _ _)
  by_cases hown : request.path = p
  · subst hown
    have hfree := (examine_ok hok).2
    have hthere : fs.readFile request.path = some content := by
      rcases h.kept with ⟨hthere, -⟩ | ⟨container, hcontainer, -⟩
      · exact hthere
      · rw [Fs.readFile, hfree] at hcontainer
        cases hcontainer
    have hfile := hothers request.path (sealedPath_ne _).symm (hp.ne_tmp _)
    rcases hout with hout | ⟨content', container, hread, hcontainer, hopens⟩
    · exact h.frame hbeyond hout fun _ => hfile
    · obtain rfl := Option.some.inj (hread.symm.trans hthere)
      exact ⟨hbeyond.trans h.beyond, .inr ⟨container, hcontainer, hopens⟩⟩
  · have hsealed : sealedPath p ≠ sealedPath request.path :=
      fun heq => hown (sealedPath_inj hp.named heq.symm)
    refine h.frame hbeyond (hothers _ hsealed (sealedPath_ne_tmp _ _)) fun hfree => ?_
    refine hothers p (fun heq => ?_) (hp.ne_tmp _)
    -- a container would be written over the document, and that is refused while it is there
    rcases h.kept with ⟨hthere, -⟩ | ⟨container, hcontainer, -⟩
    · rw [Fs.readFile, heq, (examine_ok hok).2] at hthere
      cases hthere
    · rw [Fs.readFile, hfree] at hcontainer
      cases hcontainer

theorem Kept.erase {path : Path} {outcome : Deletion} (h : Kept P owner p content fs) :
    Kept P owner p content (shredOriginal path outcome fs).2 := by
  rcases @erase_cases fs path outcome with hsame | ⟨hlocked, ⟨erased, hthere⟩, hothers⟩
  · rw [hsame]
    exact h
  have hbeyond : sealedPath (sealedPath p) ≠ path := by
    rintro rfl
    rw [Fs.readFile, h.beyond] at hthere
    cases hthere
  have hout : sealedPath p ≠ path := by
    rintro rfl
    rw [Fs.exists?, h.beyond] at hlocked
    cases hlocked
  refine h.frame (hothers _ hbeyond) (hothers _ hout) fun hfree => hothers p ?_
  rintro rfl
  rw [Fs.exists?, hfree] at hlocked
  cases hlocked

theorem Kept.afterActions (hP : P.Lawful) (hp : Document p) {actions : List LockAction}
    (h : Kept P owner p content fs) : Kept P owner p content (afterActions P owner fs actions) := by
  induction actions generalizing fs with
  | nil => exact h
  | cons action rest ih =>
      cases action with
      | lock profile request run => exact ih (h.lock hP hp)
      | erase path outcome => exact ih h.erase

end

namespace Reference

-- Erasing a file is tried too early, and again once it is locked.
def lockedErased : List LockAction :=
  [.erase ["a.txt"] .removed, .lock Setup.Reference.setUpProfile (lockAlone "a.txt") lockRun,
    .erase ["a.txt"] .removed]

end Reference

end Zbacs.Agent
