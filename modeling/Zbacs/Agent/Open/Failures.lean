import Zbacs.Agent.Reference

namespace Zbacs.Agent

open Zbacs.Lib Zbacs.Core Zbacs.Proto Zbacs.Session

-- What a failed open leaves behind.

-- An open that got as far as its workspace: what it decrypts with, what the session asked for, and
-- the disk with the workspace on it.
structure Entered (L : Libraries) where
  dek : Dek
  header : Header
  headerHash : HeaderHash
  rest : Reader
  session : Zbacs.Session
  effects : List Effect
  workspace : Workspace
  made : Fs

section

variable {L : Libraries}

structure Enters (sealed : Path) (held : Held) (device : DeviceKeys L.toPrimitives) (base : Path)
    (sessionId : String) (env : OpenEnv) (fs : Fs) (x : Entered L) : Prop where
  unlocked : unlock L sealed held device env fs = .ok (x.dek, x.header, x.headerHash, x.rest)
  applied : held.session.apply .opened env.now = .ok (x.session, x.effects)
  within : .wipeWorkspace ∉ x.effects
  created : Workspace.create base sessionId env.create fs = (.ok x.workspace, x.made)

-- Every file below the base was there before, the workspace that was made is gone, and what the
-- machine holds is as it was unless the open was counted.
structure LeavesNothing (sealed : Path) (held : Held) (device : DeviceKeys L.toPrimitives) (base : Path)
    (sessionId : String) (env : OpenEnv) (fs : Fs) : Prop where
  files : ∀ p content readonly, base <+: p →
    (materialise L sealed held device base sessionId env fs).fs.lookup p = some (.file content readonly) →
      fs.lookup p = some (.file content readonly)
  wiped : ∀ x, Enters sealed held device base sessionId env fs x → ∀ p, x.workspace.root <+: p →
    (materialise L sealed held device base sessionId env fs).fs.lookup p = none
  held : (∀ dek header headerHash rest session effects,
      unlock L sealed held device env fs = .ok (dek, header, headerHash, rest) →
        held.session.apply .opened env.now ≠ .ok (session, effects)) →
    (materialise L sealed held device base sessionId env fs).held = held

-- The plaintext gets its own name: the name is one the workspace takes, no directory is there, and
-- the calls succeed.
def Settles (x : Entered L) (name : String) (env : OpenEnv) : Prop :=
  ∃ named, x.workspace.file name = .ok named ∧ env.rename = false ∧ x.made.lookup named ≠ some .dir ∧
    (.markReadOnly ∈ x.effects → env.attributes = false)

-- Once there is a workspace nothing goes wrong but the decryption, and if that does the workspace
-- can be removed.
def FailsSafely (x : Entered L) (env : OpenEnv) : Prop :=
  env.createFile = false ∧ x.made.lookup (x.workspace.root ++ ["opened.bin"]) ≠ some .dir ∧
    match (openWithDek L.toPrimitives x.header x.headerHash x.rest env.sink x.dek).result with
    | .error _ => env.wipe.removeDir = false
    | .ok opened => Settles x opened.fileName env

section Create

variable {base : Path} {sessionId : String} {faults : CreateFaults} {fs : Fs}

-- Making directories makes no file.
theorem createDirAll_file {ps : List Path} {fs fs' : Fs} (h : Fs.createDirAll ps fs = some fs') {p : Path}
    {content : Bytes} {readonly : Bool} (hfile : fs'.lookup p = some (.file content readonly)) :
    fs.lookup p = some (.file content readonly) := by
  induction ps generalizing fs with
  | nil =>
      cases h
      exact hfile
  | cons q rest ih =>
      unfold Fs.createDirAll at h
      split at h
      · have hinserted := ih h
        by_cases hq : p = q
        · subst hq
          rw [Fs.lookup_insert_self] at hinserted
          cases hinserted
        · rwa [Fs.lookup_insert_ne _ hq] at hinserted
      · exact ih h
      · cases h

theorem createDirAll_dir {ps : List Path} {fs fs' : Fs} (h : Fs.createDirAll ps fs = some fs') {p : Path}
    (hp : p ∈ ps) : fs'.lookup p = some .dir := by
  induction ps generalizing fs with
  | nil => cases hp
  | cons q rest ih =>
      unfold Fs.createDirAll at h
      by_cases hrest : p ∈ rest
      · split at h
        · exact ih h hrest
        · exact ih h hrest
        · cases h
      · obtain rfl := (List.mem_cons.mp hp).resolve_right hrest
        split at h
        · rw [Fs.lookup_createDirAll_ne h hrest, Fs.lookup_insert_self]
        · rename_i hdir
          rw [Fs.lookup_createDirAll_ne h hrest, hdir]
        · cases h

theorem create_file {p : Path} {content : Bytes} {readonly : Bool}
    (hfile : (Workspace.create base sessionId faults fs).2.lookup p = some (.file content readonly)) :
    fs.lookup p = some (.file content readonly) := by
  unfold Workspace.create at hfile
  split at hfile
  · exact hfile
  · dsimp only at hfile
    split at hfile
    · exact hfile
    · split at hfile
      · exact hfile
      · rename_i hdirs
        refine createDirAll_file hdirs ?_
        split at hfile <;> exact hfile

theorem create_root {made : Fs} {w : Workspace}
    (h : Workspace.create base sessionId faults fs = (.ok w, made)) :
    w.root = base ++ [sessionId] ∧ made.lookup w.root = some .dir := by
  obtain ⟨-, hroot, hdirs⟩ := Workspace.create_cases h
  refine ⟨hroot, createDirAll_dir hdirs ?_⟩
  rw [hroot, Fs.mem_ancestors]
  exact ⟨List.prefix_refl _, by simp⟩

end Create

section Settle

variable {w : Workspace} {plain : Path} {name : String} {effects : List Effect} {env : OpenEnv} {fs : Fs}
  {content : Bytes} {readonly : Bool}

theorem settleName_iff (hplain : fs.lookup plain = some (.file content readonly)) :
    (∃ mat, (settleName w plain name effects env fs).1 = .ok mat) ↔
      ∃ named, w.file name = .ok named ∧ env.rename = false ∧ fs.lookup named ≠ some .dir ∧
        (.markReadOnly ∈ effects → env.attributes = false) := by
  unfold settleName
  cases hfile : w.file name with
  | error e => simp
  | ok named =>
      cases hrename : env.rename with
      | true => simp
      | false =>
          by_cases hdir : fs.lookup named = some .dir
          · have hnone : fs.rename plain named = none := by simp only [Fs.rename, hplain, hdir]
            simp [hnone, hdir]
          · obtain ⟨moved, hmoved, hthere, -, -⟩ := Fs.rename_ok hplain hdir
            by_cases hro : Effect.markReadOnly ∈ effects
            · cases hattributes : env.attributes with
              | true => simp [hmoved, hro]
              | false =>
                  simp [hmoved, hro, hdir, Workspace.markReadOnly, Workspace.setReadOnly, hfile, hthere]
            · simp [hmoved, hro, hdir]

theorem settleName_unrenamed (hrename : env.rename = true) :
    settleName w plain name effects env fs = (.error .workspace, fs) := by
  unfold settleName
  split
  · rfl
  · rw [if_pos hrename]

-- The directory stays, whatever comes of it.
theorem settleName_root (hplain : plain ≠ w.root) (hroot : fs.lookup w.root = some .dir) :
    (settleName w plain name effects env fs).2.lookup w.root = some .dir := by
  unfold settleName
  cases hfile : w.file name with
  | error e => exact hroot
  | ok named =>
      dsimp only
      split
      · exact hroot
      · cases hrename : fs.rename plain named with
        | none => exact hroot
        | some moved =>
            have hne : w.root ≠ named := by
              rintro rfl
              unfold Fs.rename at hrename
              rw [hroot] at hrename
              split at hrename <;> simp_all
            have hmoved := (Fs.lookup_rename_ne hrename (Ne.symm hplain) hne).trans hroot
            have hmarked : (w.markReadOnly name moved).2.lookup w.root = some .dir := by
              rw [Workspace.markReadOnly, Workspace.setReadOnly, hfile]
              dsimp only
              split
              · exact hmoved
              · exact hmoved
              · rw [Fs.lookup_insert_ne _ hne]
                exact hmoved
            dsimp only
            split
            · split
              · exact hmoved
              · split
                · rename_i hset
                  rwa [hset] at hmarked
                · rename_i hset
                  rwa [hset] at hmarked
            · exact hmoved

end Settle

section Stages

variable {sealed base : Path} {held : Held} {device : DeviceKeys L.toPrimitives} {sessionId : String}
  {env : OpenEnv} {fs : Fs} {x : Entered L}

theorem materialise_entered (h : Enters sealed held device base sessionId env fs x) :
    (materialise L sealed held device base sessionId env fs).result =
        (extract L base sessionId x.effects env x.header x.headerHash x.rest x.dek fs).1 ∧
      (materialise L sealed held device base sessionId env fs).fs =
        (extract L base sessionId x.effects env x.header x.headerHash x.rest x.dek fs).2.1 := by
  simp only [materialise, h.unlocked, h.applied, if_neg h.within, and_self]

-- The file for the plaintext cannot be made.
theorem extract_uncreated (h : Enters sealed held device base sessionId env fs x)
    (hfile : env.createFile = true ∨ x.made.lookup (x.workspace.root ++ ["opened.bin"]) = some .dir) :
    extract L base sessionId x.effects env x.header x.headerHash x.rest x.dek fs =
      (.error .workspace, x.made, []) := by
  simp only [extract, h.created, goodName_opened.file_eq, if_pos hfile]

-- The decryption fails: what came of it is wiped.
theorem extract_damaged (h : Enters sealed held device base sessionId env fs x)
    (hfile : env.createFile = false)
    (hdir : x.made.lookup (x.workspace.root ++ ["opened.bin"]) ≠ some .dir) {e : Error}
    (hrun : (openWithDek L.toPrimitives x.header x.headerHash x.rest env.sink x.dek).result = .error e) :
    extract L base sessionId x.effects env x.header x.headerHash x.rest x.dek fs = (.error .damaged,
      (x.workspace.wipe env.wipe (x.made.insert (x.workspace.root ++ ["opened.bin"]) (.file
        (openWithDek L.toPrimitives x.header x.headerHash x.rest env.sink x.dek).written false))).2,
      (openWithDek L.toPrimitives x.header x.headerHash x.rest env.sink x.dek).written) := by
  simp only [extract, h.created, goodName_opened.file_eq, hfile, hdir, hrun, Bool.false_eq_true, false_or,
    if_false]

-- The decryption is done: the rest is the name.
theorem extract_settles (h : Enters sealed held device base sessionId env fs x)
    (hfile : env.createFile = false)
    (hdir : x.made.lookup (x.workspace.root ++ ["opened.bin"]) ≠ some .dir) {opened : Opened}
    (hrun : (openWithDek L.toPrimitives x.header x.headerHash x.rest env.sink x.dek).result = .ok opened) :
    extract L base sessionId x.effects env x.header x.headerHash x.rest x.dek fs =
      (fun out : Except Problem Materialised × Fs => (out.1, out.2,
        (openWithDek L.toPrimitives x.header x.headerHash x.rest env.sink x.dek).written))
      (settleName x.workspace (x.workspace.root ++ ["opened.bin"]) opened.fileName x.effects env
        (x.made.insert (x.workspace.root ++ ["opened.bin"]) (.file
          (openWithDek L.toPrimitives x.header x.headerHash x.rest env.sink x.dek).written false))) := by
  simp only [extract, h.created, goodName_opened.file_eq, hfile, hdir, hrun, Bool.false_eq_true, false_or,
    if_false]

theorem Enters.root (h : Enters sealed held device base sessionId env fs x) :
    x.workspace.root = base ++ [sessionId] ∧ x.made.lookup x.workspace.root = some .dir :=
  create_root h.created

-- A directory that cannot be removed is still there.
theorem lookup_wipe_root {w : Workspace} {faults : WipeFaults} (hremove : faults.removeDir = true)
    (hroot : w.root ≠ []) : (w.wipe faults fs).2.lookup w.root = fs.lookup w.root := by
  have hnot : w.root ∉ fs.filesIn w.root := by
    intro hmem
    obtain ⟨⟨q, node⟩, -, hq⟩ := List.mem_filterMap.mp hmem
    cases node with
    | dir => cases hq
    | file content readonly =>
        obtain ⟨⟨hlast, -⟩, hsame⟩ := Option.ite_none_right_eq_some.mp hq
        obtain rfl : q = w.root := Option.some.inj hsame
        have hlength := congrArg List.length hlast
        rw [List.length_dropLast] at hlength
        have hpos : 0 < w.root.length := List.length_pos_iff.mpr hroot
        dsimp only at hlength
        omega
  have hfiles := @Workspace.lookup_deleteFiles faults (fs.filesIn w.root) none fs w.root hnot
  unfold Workspace.wipe
  rcases hrun : Workspace.deleteFiles faults (fs.filesIn w.root) none fs with ⟨firstError, fs'⟩
  rw [hrun] at hfiles
  simp only [hremove, if_true]
  cases firstError <;> exact hfiles

-- What goes wrong otherwise leaves the workspace where it is.
theorem materialise_left_behind (h : Enters sealed held device base sessionId env fs x)
    (hmiss : ¬FailsSafely x env) :
    (∃ e, (materialise L sealed held device base sessionId env fs).result = .error e) ∧
      (materialise L sealed held device base sessionId env fs).fs.lookup x.workspace.root =
        some .dir := by
  obtain ⟨hroot, hdirRoot⟩ := h.root
  have hne : x.workspace.root ≠ [] := by simp [hroot]
  have hplain : x.workspace.root ++ ["opened.bin"] ≠ x.workspace.root := by simp
  have hfilled : ∀ n, (x.made.insert (x.workspace.root ++ ["opened.bin"]) n).lookup x.workspace.root =
      some .dir := fun n => (Fs.lookup_insert_ne n hplain.symm).trans hdirRoot
  obtain ⟨hresult, hfs⟩ := materialise_entered h
  rw [hresult, hfs]
  by_cases hfile : env.createFile = true ∨
      x.made.lookup (x.workspace.root ++ ["opened.bin"]) = some .dir
  · rw [extract_uncreated h hfile]
    exact ⟨⟨_, rfl⟩, hdirRoot⟩
  · rw [not_or, Bool.not_eq_true] at hfile
    cases hrun : (openWithDek L.toPrimitives x.header x.headerHash x.rest env.sink x.dek).result with
    | error e =>
        rw [extract_damaged h hfile.1 hfile.2 hrun]
        refine ⟨⟨_, rfl⟩, ?_⟩
        have hremove : env.wipe.removeDir = true := by
          by_contra hremove
          refine hmiss ⟨hfile.1, hfile.2, ?_⟩
          rw [hrun]
          exact Bool.eq_false_of_not_eq_true hremove
        exact (lookup_wipe_root hremove hne).trans (hfilled _)
    | ok opened =>
        rw [extract_settles h hfile.1 hfile.2 hrun]
        refine ⟨?_, settleName_root hplain (hfilled _)⟩
        have hnot : ¬∃ mat, (settleName x.workspace (x.workspace.root ++ ["opened.bin"]) opened.fileName
            x.effects env (x.made.insert (x.workspace.root ++ ["opened.bin"]) (.file (openWithDek
              L.toPrimitives x.header x.headerHash x.rest env.sink x.dek).written false))).1 = .ok mat := by
          rw [settleName_iff (Fs.lookup_insert_self _ _)]
          rintro ⟨named, hnamed, hrename, hdir, hattributes⟩
          refine hmiss ⟨hfile.1, hfile.2, ?_⟩
          rw [hrun]
          refine ⟨named, hnamed, hrename, ?_, hattributes⟩
          by_cases hsame : named = x.workspace.root ++ ["opened.bin"]
          · rw [hsame]
            exact hfile.2
          · rwa [Fs.lookup_insert_ne _ hsame] at hdir
        rcases hsettle : settleName x.workspace (x.workspace.root ++ ["opened.bin"]) opened.fileName
            x.effects env (x.made.insert (x.workspace.root ++ ["opened.bin"]) (.file (openWithDek
              L.toPrimitives x.header x.headerHash x.rest env.sink x.dek).written false)) with
          ⟨e | mat, fs'⟩
        · exact ⟨e, rfl⟩
        · rw [hsettle] at hnot
          exact absurd ⟨mat, rfl⟩ hnot

-- A failure that is safe is that of the decryption, and the workspace is removed.
theorem materialise_safe (h : Enters sealed held device base sessionId env fs x)
    (hsafe : FailsSafely x env) {e : Problem}
    (herror : (materialise L sealed held device base sessionId env fs).result = .error e) :
    env.wipe.removeDir = false ∧ ∃ written,
      (materialise L sealed held device base sessionId env fs).fs =
        (x.workspace.wipe env.wipe
          (x.made.insert (x.workspace.root ++ ["opened.bin"]) (.file written false))).2 := by
  obtain ⟨hfile, hdir, hrest⟩ := hsafe
  obtain ⟨hresult, hfs⟩ := materialise_entered h
  cases hrun : (openWithDek L.toPrimitives x.header x.headerHash x.rest env.sink x.dek).result with
  | error why =>
      rw [hrun] at hrest
      exact ⟨hrest, _, by rw [hfs, extract_damaged h hfile hdir hrun]⟩
  | ok opened =>
      rw [hrun] at hrest
      obtain ⟨named, hnamed, hrename, hnode, hattributes⟩ := hrest
      rw [hresult, extract_settles h hfile hdir hrun] at herror
      obtain ⟨mat, hmat⟩ := (@settleName_iff x.workspace (x.workspace.root ++ ["opened.bin"])
        opened.fileName x.effects env (x.made.insert (x.workspace.root ++ ["opened.bin"]) (.file
          (openWithDek L.toPrimitives x.header x.headerHash x.rest env.sink x.dek).written false)) _ _
        (Fs.lookup_insert_self _ _)).mpr ⟨named, hnamed, hrename, by
          by_cases hsame : named = x.workspace.root ++ ["opened.bin"]
          · rw [hsame, Fs.lookup_insert_self]
            simp
          · rwa [Fs.lookup_insert_ne _ hsame], hattributes⟩
      cases herror.symm.trans hmat

-- An open that does not come to a workspace makes no file.
theorem materialise_outside (hnone : ∀ x, ¬Enters sealed held device base sessionId env fs x) {p : Path}
    {content : Bytes} {readonly : Bool}
    (hfile : (materialise L sealed held device base sessionId env fs).fs.lookup p =
      some (.file content readonly)) : fs.lookup p = some (.file content readonly) := by
  rcases materialise_cases held device sealed base sessionId env fs with
    ⟨-, -, -, hfs⟩ | ⟨dek, header, headerHash, rest, session, effects, hunlock, happly, hwithin, heq⟩
  · rwa [hfs] at hfile
  · rcases hcreate : Workspace.create base sessionId env.create fs with ⟨e | workspace, made⟩
    · have hmade := @create_file base sessionId env.create fs p content readonly
      rw [hcreate] at hmade
      rw [heq] at hfile
      refine hmade ?_
      simpa only [extract, hcreate] using hfile
    · exact absurd ⟨hunlock, happly, hwithin, hcreate⟩
        (hnone ⟨dek, header, headerHash, rest, session, effects, workspace, made⟩)

theorem materialise_refused (h : ∀ dek header headerHash rest session effects,
    unlock L sealed held device env fs = .ok (dek, header, headerHash, rest) →
      held.session.apply .opened env.now ≠ .ok (session, effects)) :
    (materialise L sealed held device base sessionId env fs).held = held := by
  unfold materialise
  cases hunlock : unlock L sealed held device env fs with
  | error e => rfl
  | ok got =>
      obtain ⟨dek, header, headerHash, rest⟩ := got
      cases happly : held.session.apply .opened env.now with
      | error e => rfl
      | ok res => exact absurd happly (h dek header headerHash rest res.1 res.2 hunlock)

end Stages

-- Whatever the container, the grant and the disk are, and whatever fails: each failed open leaves
-- nothing of itself if and only if, once there is a workspace, the file for the plaintext can be
-- made, a decryption that fails can be removed again, and one that does not is followed by no
-- other failure.
theorem leavesNothing_iff (sealed : Path) (held : Held) (device : DeviceKeys L.toPrimitives) (base : Path)
    (sessionId : String) (env : OpenEnv) (fs : Fs) :
    (∀ e, (materialise L sealed held device base sessionId env fs).result = .error e →
      LeavesNothing sealed held device base sessionId env fs) ↔
    ∀ x, Enters sealed held device base sessionId env fs x → FailsSafely x env := by
  constructor
  · intro hleaves x hx
    by_contra hmiss
    obtain ⟨⟨e, herror⟩, hroot⟩ := materialise_left_behind hx hmiss
    rw [(hleaves e herror).wiped x hx _ (List.prefix_refl _)] at hroot
    cases hroot
  · intro hsafe e herror
    refine ⟨fun p content readonly hp hfile => ?_, fun x hx p hp => ?_, fun hbefore => ?_⟩
    · by_cases hentered : ∃ x, Enters sealed held device base sessionId env fs x
      · obtain ⟨x, hx⟩ := hentered
        obtain ⟨hremove, written, hfs⟩ := materialise_safe hx (hsafe x hx) herror
        rw [hfs] at hfile
        have hout : ¬x.workspace.root <+: p := by
          intro hin
          rw [Workspace.lookup_wipe hremove _ hin] at hfile
          cases hfile
        have hne : p ≠ x.workspace.root ++ ["opened.bin"] := by
          rintro rfl
          exact hout (List.prefix_append _ _)
        rw [Workspace.lookup_wipe_outside _ hout, Fs.lookup_insert_ne _ hne] at hfile
        have hmade := @create_file base sessionId env.create fs p content readonly
        rw [hx.created] at hmade
        exact hmade hfile
      · exact materialise_outside (fun x hx => hentered ⟨x, hx⟩) hfile
    · obtain ⟨hremove, written, hfs⟩ := materialise_safe hx (hsafe x hx) herror
      rw [hfs]
      exact Workspace.lookup_wipe hremove _ hp
    · exact materialise_refused hbefore

section Sealed

variable {plaintext out headerBytes frames : Bytes} {ownerPk : FixedBytes 32} {signer : SigningKeys}
  {opts : SealOptions} {rng : SealRandom} {h : Header}

-- A granted file that is on disk as it was sealed comes to its workspace, and decrypts.
theorem sealed_enters {sealed base : Path} {held : Held} {device : DeviceKeys L.toPrimitives}
    {sessionId : String} {env : OpenEnv} {fs : Fs} (hP : L.toPrimitives.Lawful)
    (s : SealedAs L.toPrimitives plaintext ownerPk signer opts rng h out headerBytes frames)
    (hopts : opts.Sealable L.toPrimitives) (hlen : plaintext.length < 2 ^ 64)
    (hcreate : env.create = .none) (hsink : env.sink.Total) (hid : Workspace.GoodId sessionId)
    (hroom : Workspace.Room base sessionId fs) (hfile : fs.readFile sealed = some out)
    {terms : AccessGrantTerms} (hkey : grantKey L held device = .ok (terms, rng.dek))
    (hversion : terms.headerHash = L.sha256 headerBytes) (hstate : held.session.state = .granted)
    (hbudget : held.session.maxOpens = 0 ∨ held.session.opens < held.session.maxOpens) :
    ∃ x : Entered L, Enters sealed held device base sessionId env fs x ∧
      x.workspace.root = base ++ [sessionId] ∧
      x.made.lookup (x.workspace.root ++ ["opened.bin"]) ≠ some .dir ∧
      openWithDek L.toPrimitives x.header x.headerHash x.rest env.sink x.dek =
        ⟨.ok ⟨h, L.sha256 headerBytes, opts.fileName⟩, plaintext⟩ := by
  obtain ⟨r, hread, hstream⟩ := s.readHeader_eq hP hopts.withinLimits (Reader.rest_ofData out env.offer)
  have hunlock : unlock L sealed held device env fs = .ok (rng.dek, h, L.sha256 headerBytes, r) :=
    unlock_eq_ok.mpr ⟨hstate, terms, out, hkey, hfile, hread, hversion.symm⟩
  obtain ⟨effects, hopened, hwithin⟩ : ∃ effects, held.session.apply .opened env.now =
      .ok ({ held.session with opens := held.session.opens + 1, state := .opened }, effects) ∧
      .wipeWorkspace ∉ effects :=
    ⟨_, Session.apply_opened hstate hbudget, by split_ifs <;> simp⟩
  have hrun := s.openWithDek_eq (hP.aead.decrypt_encrypt s.name_eq.2) (s.framesOf.opens hP) hlen
    hsink hstream
  obtain ⟨made, hmade, hlookup⟩ := Workspace.create_ok hid hroom
  refine ⟨⟨rng.dek, h, L.sha256 headerBytes, r, _, effects, ⟨base ++ [sessionId]⟩, made⟩,
    ⟨hunlock, hopened, hwithin, by rw [hcreate]; exact hmade⟩, rfl, fun hdir => ?_, hrun⟩
  have hfree : made.lookup (base ++ [sessionId] ++ ["opened.bin"]) = none := by
    rw [hlookup, if_neg, hroom.fresh _ (List.prefix_append _ _)]
    intro hmem
    have hlength := (Fs.mem_ancestors.mp hmem).1.length_le
    simp only [List.length_append, List.length_singleton] at hlength
    omega
  cases hfree.symm.trans hdir

end Sealed

end

namespace Reference

-- The rename to the file's own name fails: the decrypted file stays where it is.
def unnamed : OpenEnv := { OpenEnv.calm 130 with rename := true }

theorem not_leavesNothing : ∃ (container : Bytes) (held : Held),
    (materialise libraries sealed held device.keys base "1" unnamed (disk container)).result =
      .error .workspace ∧
    (materialise libraries sealed held device.keys base "1" unnamed (disk container)).fs.readFile
      (base ++ ["1"] ++ ["opened.bin"]) = some [1, 2, 3, 4, 5] ∧
    ¬LeavesNothing sealed held device.keys base "1" unnamed (disk container) := by
  obtain ⟨h, out, headerBytes, frames, -, s⟩ := container_sealed .defaultPolicy
  let t := terms ⟨h.body.fid, libraries.sha256 headerBytes, h.body.own⟩ .edit 1
  obtain ⟨x, hx, hroot, hdir, hrun⟩ := @sealed_enters libraries _ _ _ _ _ _ _ _ _ sealed base
    (granted t .edit) device.keys "1" unnamed (disk out) libraries_lawful s
    (options_sealable .defaultPolicy) Core.Reference.input.length_lt rfl Sink.memory_total
    ⟨by decide, by decide⟩ (disk_room out "1") (readFile_disk out) t (grantKey_eq rfl rfl) rfl rfl
    (.inr (UInt16.lt_iff_toNat_lt.mpr Nat.one_pos))
  obtain ⟨hresult, hfs⟩ := materialise_entered hx
  have hextract := extract_settles hx rfl hdir (congrArg OpenRun.result hrun)
  rw [settleName_unrenamed rfl, hrun] at hextract
  rw [hextract] at hresult hfs
  have hthere : (materialise libraries sealed (granted t .edit) device.keys base "1" unnamed
      (disk out)).fs.lookup (base ++ ["1"] ++ ["opened.bin"]) = some (.file [1, 2, 3, 4, 5] false) := by
    rw [hfs, ← hroot]
    exact Fs.lookup_insert_self _ _
  refine ⟨out, granted t .edit, hresult, Fs.readFile_of_lookup hthere, fun hleaves => ?_⟩
  have hgone := hleaves.wiped x hx (base ++ ["1"] ++ ["opened.bin"]) (hroot ▸ List.prefix_append _ _)
  cases hgone.symm.trans hthere

end Reference

end Zbacs.Agent
