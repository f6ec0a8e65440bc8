import Zbacs.Agent.Open
import Zbacs.Core.Container.Opening

namespace Zbacs.Agent

open Zbacs.Lib Zbacs.Core Zbacs.Proto Zbacs.Session

variable {L : Libraries} {held : Held} {device : DeviceKeys L.toPrimitives}

theorem grantKey_eq_ok {terms : AccessGrantTerms} {dek : Dek} :
    grantKey L held device = .ok (terms, dek) ↔ held.terms = some terms ∧
      ∃ bytes envelope, held.envelope = some bytes ∧ L.envelopeCodec.decode bytes = .ok envelope ∧
        envelope.openDek device (terms.structHash L).bytes = .ok dek := by
  unfold grantKey
  constructor
  · intro h
    split at h
    · rename_i terms' bytes hterms hbytes
      split at h
      · cases h
      · rename_i envelope hdecode
        split at h
        · cases h
        · rename_i dek' hopen
          cases h
          exact ⟨hterms, bytes, envelope, hbytes, hdecode, hopen⟩
    · cases h
  · rintro ⟨hterms, bytes, envelope, hbytes, hdecode, hopen⟩
    simp only [hterms, hbytes, hdecode, hopen]

theorem unlock_eq_ok {sealed : Path} {env : OpenEnv} {fs : Fs} {dek : Dek} {header : Header}
    {headerHash : HeaderHash} {rest : Reader} :
    unlock L sealed held device env fs = .ok (dek, header, headerHash, rest) ↔
      held.session.state = .granted ∧ ∃ terms container, grantKey L held device = .ok (terms, dek) ∧
        fs.readFile sealed = some container ∧
        readHeader L.toPrimitives (.ofData container env.offer) = .ok (header, headerHash, rest) ∧
        headerHash = terms.headerHash := by
  unfold unlock
  constructor
  · intro h
    split_ifs at h with hstate
    split at h
    · cases h
    · rename_i terms dek' hkey
      split at h
      · cases h
      · rename_i container hfile
        split at h
        · cases h
        · rename_i hread
          split_ifs at h with hversion
          cases h
          exact ⟨not_not.mp hstate, terms, container, hkey, hfile, hread, not_not.mp hversion⟩
  · rintro ⟨hstate, terms, container, hkey, hfile, hread, hversion⟩
    simp only [hstate, hkey, hfile, hread, hversion, ne_eq, not_true_eq_false, if_false]

variable {sealed base : Path} {sessionId : String} {env : OpenEnv} {fs : Fs}

variable (held device sealed base sessionId env fs) in
-- How far an open got that did not stop before the workspace.
theorem materialise_cases :
    (∃ e, (materialise L sealed held device base sessionId env fs).result = .error e ∧
      (materialise L sealed held device base sessionId env fs).written = [] ∧
      (materialise L sealed held device base sessionId env fs).fs = fs) ∨
    ∃ dek header headerHash rest session effects,
      unlock L sealed held device env fs = .ok (dek, header, headerHash, rest) ∧
      held.session.apply .opened env.now = .ok (session, effects) ∧
      .wipeWorkspace ∉ effects ∧
      materialise L sealed held device base sessionId env fs =
        (fun out : Except Problem Materialised × Fs × Bytes =>
          ⟨out.1, { held with session := session }, out.2.1, out.2.2⟩)
        (extract L base sessionId effects env header headerHash rest dek fs) := by
  unfold materialise
  cases hunlock : unlock L sealed held device env fs with
  | error e => exact .inl ⟨e, rfl, rfl, rfl⟩
  | ok got =>
      obtain ⟨dek, header, headerHash, rest⟩ := got
      cases happly : held.session.apply .opened env.now with
      | error e => exact .inl ⟨.notGranted, rfl, rfl, rfl⟩
      | ok res =>
          obtain ⟨session, effects⟩ := res
          by_cases hwipe : Effect.wipeWorkspace ∈ effects
          · exact .inl ⟨.opensExhausted, by simp [hwipe], by simp [hwipe], by simp [hwipe]⟩
          · exact .inr ⟨dek, header, headerHash, rest, session, effects, rfl, rfl, hwipe,
              by simp [hwipe]⟩

-- The plaintext gets its own name inside the workspace.
theorem lookup_settleName {workspace : Workspace} {plain q : Path} (name : String)
    (effects : List Effect) (hplain : workspace.root <+: plain) (hq : ¬workspace.root <+: q) :
    (settleName workspace plain name effects env fs).2.lookup q = fs.lookup q := by
  have hne : ∀ p, workspace.root <+: p → q ≠ p := by
    rintro p hp rfl
    exact hq hp
  unfold settleName
  cases hfile : workspace.file name with
  | error e => rfl
  | ok named =>
      dsimp only
      split
      · rfl
      · cases hrename : fs.rename plain named with
        | none => rfl
        | some moved =>
            have hmoved := Fs.lookup_rename_ne hrename (hne _ hplain)
              (hne _ (Workspace.file_eq_ok hfile))
            dsimp only
            split
            · split
              · exact hmoved
              · have hmarked := @Workspace.lookup_setReadOnly workspace moved name true q hq
                unfold Workspace.markReadOnly
                split
                · rename_i hset
                  rw [hset] at hmarked
                  exact hmarked.trans hmoved
                · rename_i hset
                  rw [hset] at hmarked
                  exact hmarked.trans hmoved
            · exact hmoved

-- A workspace that a file is not in does not have the temporary file beside it either: there is no
-- dot in an id.
theorem withExtension_outside (h : Workspace.GoodId sessionId) {p : Path} {ext : String}
    (hp : ¬base ++ [sessionId] <+: p) :
    ¬base ++ [sessionId] <+: withExtension p ext := by
  rcases List.eq_nil_or_concat p with rfl | ⟨front, name, rfl⟩
  · exact hp
  · rw [List.concat_eq_append] at hp ⊢
    simp only [withExtension, List.getLast?_concat, List.dropLast_concat]
    rw [List.prefix_concat_iff, not_or]
    constructor
    · intro heq
      have hid := (List.append_inj' heq rfl).2
      simp only [List.cons.injEq, and_true] at hid
      have hdot := h.2
      rw [hid] at hdot
      simp at hdot
    · exact fun hfront => hp (hfront.trans (List.prefix_append _ _))

theorem settleName_eq_ok {workspace : Workspace} {plain : Path} {name : String}
    {effects : List Effect} {mat : Materialised}
    (h : (settleName workspace plain name effects env fs).1 = .ok mat) : mat.workspace = workspace := by
  unfold settleName at h
  split at h
  · cases h
  · split at h
    · cases h
    · split at h
      · cases h
      · split at h
        · split at h
          · cases h
          · split at h
            · cases h
            · cases h
              rfl
        · cases h
          rfl

-- Under its own name the plaintext is what it was.
theorem settleName_reads {workspace : Workspace} {plain : Path} {name : String}
    {effects : List Effect} {mat : Materialised} {content : Bytes} {readonly : Bool} {fs' : Fs}
    (hplain : fs.lookup plain = some (.file content readonly))
    (h : settleName workspace plain name effects env fs = (.ok mat, fs')) :
    workspace.root <+: mat.plain ∧ fs'.readFile mat.plain = some content := by
  unfold settleName at h
  cases hfile : workspace.file name with
  | error e =>
      rw [hfile] at h
      cases h
  | ok named =>
      simp only [hfile] at h
      split at h
      · cases h
      · cases hrename : fs.rename plain named with
        | none =>
            rw [hrename] at h
            cases h
        | some moved =>
            have hthere := Fs.lookup_of_rename hplain hrename
            simp only [hrename] at h
            split at h
            · simp only [Workspace.markReadOnly, Workspace.setReadOnly, hfile, hthere] at h
              split at h
              · cases h
              · cases h
                exact ⟨Workspace.file_eq_ok hfile, Fs.readFile_of_lookup (Fs.lookup_insert_self _ _)⟩
            · cases h
              exact ⟨Workspace.file_eq_ok hfile, Fs.readFile_of_lookup hthere⟩

-- What an open that went through has done on disk.
structure Extracted (base : Path) (sessionId : String) (fs : Fs) (mat : Materialised) (fs' : Fs)
    (written : Bytes) : Prop where
  root : mat.workspace.root = base ++ [sessionId]
  inside : base ++ [sessionId] <+: mat.plain
  content : fs'.readFile mat.plain = some written
  files : ∀ q content readonly, fs.lookup q = some (.file content readonly) →
    ¬base ++ [sessionId] <+: q → fs'.lookup q = some (.file content readonly)

theorem extract_reads (hid : Workspace.GoodId sessionId) {effects : List Effect} {header : Header}
    {headerHash : HeaderHash} {rest : Reader} {dek : Dek} {mat : Materialised} {fs' : Fs}
    {written : Bytes} (h : extract L base sessionId effects env header headerHash rest dek fs =
      (.ok mat, fs', written)) :
    Extracted base sessionId fs mat fs' written ∧
      ∃ opened, openWithDek L.toPrimitives header headerHash rest .memory dek =
        ⟨.ok opened, written⟩ := by
  unfold extract at h
  rcases hcreate : Workspace.create base sessionId env.create fs with ⟨e | workspace, made⟩
  · rw [hcreate] at h
    cases h
  · have hroot := Workspace.create_eq_ok hcreate
    simp only [hcreate] at h
    cases hplain : workspace.file "opened.bin" with
    | error e =>
        rw [hplain] at h
        cases h
    | ok plain =>
        simp only [hplain] at h
        split at h
        · cases h
        · split at h
          · cases h
          · rename_i opened hopen
            rcases hsettle : settleName workspace plain opened.fileName effects env
                (made.insert plain (.file
                  (openWithDek L.toPrimitives header headerHash rest env.sink dek).written false)) with
              ⟨result, settled⟩
            rw [hsettle] at h
            cases h
            have hmat := settleName_eq_ok (congrArg Prod.fst hsettle)
            obtain ⟨hinside, hcontent⟩ := settleName_reads (Fs.lookup_insert_self _ _) hsettle
            have hinner := Workspace.file_eq_ok hplain
            refine ⟨⟨(congrArg Workspace.root hmat).trans hroot, hroot ▸ hinside, hcontent, ?_⟩,
              opened, openWithDek_memory hopen⟩
            intro q content readonly hfile hout
            have hnot := Workspace.not_mem_ancestors_of_create hcreate hfile
            rw [hid.join] at hnot
            have hmade := @Workspace.lookup_create base sessionId hid env.create fs q hnot
            have hsettled := (congrArg (·.2.lookup q) hsettle).symm.trans
              (lookup_settleName opened.fileName effects hinner (hroot ▸ hout))
            have hne : q ≠ plain := by
              rintro rfl
              exact hout (hroot ▸ hinner)
            rw [hcreate] at hmade
            exact hsettled.trans ((Fs.lookup_insert_ne _ hne).trans (hmade.trans hfile))

theorem extract_eq_ok {effects : List Effect} {header : Header} {headerHash : HeaderHash}
    {rest : Reader} {dek : Dek} {mat : Materialised}
    (h : (extract L base sessionId effects env header headerHash rest dek fs).1 = .ok mat) :
    mat.workspace.root = base ++ [sessionId] := by
  unfold extract at h
  split at h
  · cases h
  · rename_i workspace fs' hcreate
    split at h
    · cases h
    · split at h
      · cases h
      · simp only at h
        split at h
        · cases h
        · rw [settleName_eq_ok h, Workspace.create_eq_ok hcreate]

-- A file that is open: the session counted it, and its workspace is its own.
theorem materialise_eq_ok {mat : Materialised}
    (h : (materialise L sealed held device base sessionId env fs).result = .ok mat) :
    (materialise L sealed held device base sessionId env fs).held = { held with session :=
        { held.session with opens := held.session.opens + 1, state := .opened } } ∧
      held.session.state = .granted ∧ mat.workspace.root = base ++ [sessionId] := by
  rcases materialise_cases held device sealed base sessionId env fs with
    ⟨e, herror, -⟩ | ⟨dek, header, headerHash, rest, session, effects, hunlock, happly, hwipe, heq⟩
  · rw [herror] at h
    cases h
  · rw [heq] at h
    have hstate := (unlock_eq_ok.mp hunlock).1
    refine ⟨?_, hstate, extract_eq_ok h⟩
    rw [heq]
    cases Session.step_of_apply happly with
    | exhausted => simp at hwipe
    | opened => rfl

section Success

-- A file name the workspace takes, other than the directory itself.
structure GoodName (name : String) : Prop where
  nonempty : name ≠ ""
  noSlash : name.toList.any (fun c => c = '/' ∨ c = '\\') = false
  noParent : name.toList.take 2 ≠ ['.', '.']
  notDot : name ≠ "."

-- No system call of the open fails.
structure OpenEnv.Quiet (env : OpenEnv) : Prop where
  create : env.create = .none
  createFile : env.createFile = false
  sink : env.sink.Total
  rename : env.rename = false
  attributes : env.attributes = false

theorem OpenEnv.calm_quiet (now : UInt64) : (OpenEnv.calm now).Quiet :=
  ⟨rfl, rfl, Sink.memory_total, rfl, rfl⟩

theorem GoodName.file_eq {name : String} (h : GoodName name) (w : Workspace) :
    w.file name = .ok (w.root ++ [name]) := by
  have hcheck : ¬(name = "" ∨ name.toList.any (fun c => c = '/' ∨ c = '\\') ∨
      name.toList.take 2 = ['.', '.']) := by
    rw [h.noSlash]
    simp [h.nonempty, h.noParent]
  rw [Workspace.file, if_neg hcheck]
  simp [Path.join, h.notDot]

theorem goodName_opened : GoodName "opened.bin" := ⟨by decide, by decide, by decide, by decide⟩

-- The plaintext under its own name: nothing else moves.
theorem settleName_ok {w : Workspace} {name : String} (hname : GoodName name)
    (effects : List Effect) (hquiet : env.Quiet) {content : Bytes}
    (hplain : fs.lookup (w.root ++ ["opened.bin"]) = some (.file content false))
    (hfree : fs.lookup (w.root ++ [name]) ≠ some .dir) :
    ∃ fs', settleName w (w.root ++ ["opened.bin"]) name effects env fs =
        (.ok ⟨w, w.root ++ [name], name, effects⟩, fs') ∧
      fs'.readFile (w.root ++ [name]) = some content ∧
      ∀ q, q ≠ w.root ++ ["opened.bin"] → q ≠ w.root ++ [name] → fs'.lookup q = fs.lookup q := by
  obtain ⟨moved, hrename, hthere, -, hother⟩ := Fs.rename_ok hplain hfree
  by_cases hro : Effect.markReadOnly ∈ effects
  · refine ⟨moved.insert (w.root ++ [name]) (.file content true), ?_, by simp [Fs.readFile], ?_⟩
    · simp only [settleName, hname.file_eq, hquiet.rename, hquiet.attributes, hrename, hro, hthere,
        Workspace.markReadOnly, Workspace.setReadOnly, if_true, Bool.false_eq_true, if_false]
    · intro q hq hq'
      rw [Fs.lookup_insert_ne _ hq', hother q hq hq']
  · refine ⟨moved, ?_, by simp [Fs.readFile, hthere], hother⟩
    simp only [settleName, hname.file_eq, hquiet.rename, hrename, hro, Bool.false_eq_true, if_false]

variable {plaintext out headerBytes frames : Bytes} {ownerPk : FixedBytes 32} {signer : SigningKeys}
  {opts : SealOptions} {rng : SealRandom} {h : Header}

-- A stream that decrypts ends up under its own name in a fresh workspace. Beside the
-- workspace only missing directories on the way to it appear.
theorem extract_ok (hname : GoodName opts.fileName) (hquiet : env.Quiet)
    (hid : Workspace.GoodId sessionId) (hroom : Workspace.Room base sessionId fs)
    (effects : List Effect) {headerHash : HeaderHash} {rest : Reader}
    (hrun : openWithDek L.toPrimitives h headerHash rest env.sink rng.dek =
      ⟨.ok ⟨h, headerHash, opts.fileName⟩, plaintext⟩) :
    ∃ fs', extract L base sessionId effects env h headerHash rest rng.dek fs =
        (.ok ⟨⟨base ++ [sessionId]⟩, base ++ [sessionId] ++ [opts.fileName], opts.fileName, effects⟩,
          fs', plaintext) ∧
      fs'.readFile (base ++ [sessionId] ++ [opts.fileName]) = some plaintext ∧
      fs'.lookup (base ++ [sessionId]) = some .dir ∧
      ∀ q, ¬(base ++ [sessionId] <+: q) →
        fs'.lookup q = if q ∈ Fs.ancestors base then some .dir else fs.lookup q := by
  obtain ⟨fs₁, hcreate, hfs₁⟩ := Workspace.create_ok hid hroom
  have hbelow : ∀ name, fs₁.lookup (base ++ [sessionId] ++ [name]) = none := by
    intro name
    rw [hfs₁, if_neg, hroom.fresh _ (List.prefix_append _ _)]
    intro hmem
    have := (Fs.mem_ancestors.mp hmem).1.length_le
    simp only [List.length_append, List.length_singleton] at this
    omega
  let plain := base ++ [sessionId] ++ ["opened.bin"]
  have hfree : (fs₁.insert plain (.file plaintext false)).lookup
      (base ++ [sessionId] ++ [opts.fileName]) ≠ some .dir := by
    by_cases hsame : base ++ [sessionId] ++ [opts.fileName] = plain
    · rw [hsame, Fs.lookup_insert_self]
      simp
    · rw [Fs.lookup_insert_ne _ hsame, hbelow]
      simp
  obtain ⟨fs₂, hsettle, hcontent, hother⟩ := settleName_ok (w := ⟨base ++ [sessionId]⟩) hname
    effects hquiet (Fs.lookup_insert_self plain (.file plaintext false)) hfree
  have hfs₂ : ∀ q, (∀ name, q ≠ base ++ [sessionId] ++ [name]) → fs₂.lookup q = fs₁.lookup q := by
    intro q hq
    rw [hother q (hq _) (hq _), Fs.lookup_insert_ne _ (hq _)]
  refine ⟨fs₂, ?_, hcontent, ?_, ?_⟩
  · have hplain := goodName_opened.file_eq ⟨base ++ [sessionId]⟩
    simp only [extract, hquiet.create, hcreate, hplain, hquiet.createFile, hbelow, hrun,
      Bool.false_eq_true, false_or, reduceCtorEq, if_false]
    rw [hsettle]
  · rw [hfs₂ _ (by simp), hfs₁, if_pos (Fs.mem_ancestors.mpr ⟨List.prefix_refl _, by simp⟩)]
  · intro q hq
    rw [hfs₂ q (fun name hsame => hq (hsame ▸ List.prefix_append _ _)), hfs₁]
    have hiff : q ∈ Fs.ancestors (base ++ [sessionId]) ↔ q ∈ Fs.ancestors base := by
      simp only [Fs.mem_ancestors, List.prefix_concat_iff]
      constructor
      · rintro ⟨rfl | hbase, hne⟩
        · exact absurd (List.prefix_refl _) hq
        · exact ⟨hbase, hne⟩
      · rintro ⟨hbase, hne⟩
        exact ⟨.inr hbase, hne⟩
    simp only [hiff]

-- A granted file that is on disk as it was sealed opens into a fresh workspace.
theorem materialise_ok (hP : L.toPrimitives.Lawful)
    (s : SealedAs L.toPrimitives plaintext ownerPk signer opts rng h out headerBytes frames)
    (hopts : opts.Sealable L.toPrimitives) (hlen : plaintext.length < 2 ^ 64)
    (hname : GoodName opts.fileName) (hquiet : env.Quiet) (hid : Workspace.GoodId sessionId)
    (hroom : Workspace.Room base sessionId fs) (hfile : fs.readFile sealed = some out)
    {terms : AccessGrantTerms} (hkey : grantKey L held device = .ok (terms, rng.dek))
    (hversion : terms.headerHash = L.sha256 headerBytes) (hstate : held.session.state = .granted)
    (hbudget : held.session.maxOpens = 0 ∨ held.session.opens < held.session.maxOpens) :
    ∃ effects fs', materialise L sealed held device base sessionId env fs =
        ⟨.ok ⟨⟨base ++ [sessionId]⟩, base ++ [sessionId] ++ [opts.fileName], opts.fileName, effects⟩,
          { held with session :=
            { held.session with opens := held.session.opens + 1, state := .opened } },
          fs', plaintext⟩ ∧
      fs'.readFile (base ++ [sessionId] ++ [opts.fileName]) = some plaintext ∧
      fs'.lookup (base ++ [sessionId]) = some .dir ∧
      ∀ q, ¬(base ++ [sessionId] <+: q) →
        fs'.lookup q = if q ∈ Fs.ancestors base then some .dir else fs.lookup q := by
  obtain ⟨r, hread, hstream⟩ := s.readHeader_eq hP hopts.withinLimits (Reader.rest_ofData out env.offer)
  have hunlock : unlock L sealed held device env fs = .ok (rng.dek, h, L.sha256 headerBytes, r) :=
    unlock_eq_ok.mpr ⟨hstate, terms, out, hkey, hfile, hread, hversion.symm⟩
  obtain ⟨effects, hopened, hwipe⟩ : ∃ effects, held.session.apply .opened env.now =
      .ok ({ held.session with opens := held.session.opens + 1, state := .opened }, effects) ∧
      .wipeWorkspace ∉ effects :=
    ⟨_, Session.apply_opened hstate hbudget, by split_ifs <;> simp⟩
  have hrun := s.openWithDek_eq (hP.aead.decrypt_encrypt s.name_eq.2) (s.framesOf.opens hP) hlen
    hquiet.sink hstream
  obtain ⟨fs', hextract, hcontent, hroot, hother⟩ := extract_ok hname hquiet hid hroom effects hrun
  refine ⟨effects, fs', ?_, hcontent, hroot, hother⟩
  simp only [materialise, hunlock, hopened, hwipe, if_false, hextract]

end Success

end Zbacs.Agent
