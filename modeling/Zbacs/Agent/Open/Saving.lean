import Zbacs.Agent.Open.Theorems
import Zbacs.Core.Path.Theorems

namespace Zbacs.Agent

open Zbacs.Lib Zbacs.Core Zbacs.Proto Zbacs.Session

variable {L : Libraries} {held : Held} {device : DeviceKeys L.toPrimitives} {signer : SigningKeys}
  {sealed : Path} {mat : Materialised} {env : SaveEnv} {fs : Fs}

-- What a save leaves behind when it became a version.
structure Announced (held : Held) (env : SaveEnv) (saved : Saved) (step : SaveStep) : Prop where
  result : step.result = .ok saved
  held_eq : step.held = { held with session := held.session.applied (.resealed saved.ver) env.now }
  sent : step.sent = [saved.notice]

-- And when it did not: nothing was sent, and the grant is as it was.
structure Unsent (held : Held) (e : Problem) (step : SaveStep) : Prop where
  result : step.result = .error e
  held_eq : step.held = held
  sent : step.sent = []

theorem announceVersion_cases (grantId : FixedBytes 32) (prevHash : HeaderHash) (header : Header) :
    (∃ e, Unsent held e (announceVersion L sealed held grantId prevHash header signer env fs)) ∨
      ∃ saved, Announced held env saved
        (announceVersion L sealed held grantId prevHash header signer env fs) := by
  unfold announceVersion
  split
  · exact .inl ⟨_, rfl, rfl, rfl⟩
  · split
    · exact .inl ⟨_, rfl, rfl, rfl⟩
    · split
      · exact .inl ⟨_, rfl, rfl, rfl⟩
      · split
        · exact .inl ⟨_, rfl, rfl, rfl⟩
        · simp only
          split
          · exact .inl ⟨_, rfl, rfl, rfl⟩
          · exact .inr ⟨_, rfl, rfl, rfl⟩

variable (L held device signer sealed mat env fs) in
-- A save becomes a version only of the container the grant names.
theorem save_cases :
    (∃ e, Unsent held e (save L sealed mat held device signer env fs)) ∨
      ∃ saved, Announced held env saved (save L sealed mat held device signer env fs) ∧
        ∃ terms dek container prev, grantKey L held device = .ok (terms, dek) ∧
          fs.readFile sealed = some container ∧
          inspect L.toPrimitives (.ofData container env.disk.offer) = .ok (prev, terms.headerHash) := by
  unfold save
  split_ifs with hstate
  · exact .inl ⟨_, rfl, rfl, rfl⟩
  · split
    · exact .inl ⟨_, rfl, rfl, rfl⟩
    · rename_i terms dek hkey
      split
      · exact .inl ⟨_, rfl, rfl, rfl⟩
      · rename_i container hfile
        split
        · exact .inl ⟨_, rfl, rfl, rfl⟩
        · rename_i prev prevHash hinspect
          split_ifs with hversion
          · exact .inl ⟨_, rfl, rfl, rfl⟩
          · split
            · exact .inl ⟨_, rfl, rfl, rfl⟩
            · exact .inl ⟨_, rfl, rfl, rfl⟩
            · rcases announceVersion_cases (terms.structHash L) prevHash _ with hfail | ⟨saved, hok⟩
              · exact .inl hfail
              · exact .inr ⟨saved, hok, terms, dek, container, prev, hkey, hfile,
                  hinspect.trans (by rw [not_not.mp hversion])⟩

theorem announceVersion_fs (grantId : FixedBytes 32) (prevHash : HeaderHash) (header : Header) :
    (announceVersion L sealed held grantId prevHash header signer env fs).fs = fs := by
  unfold announceVersion
  repeat' split
  all_goals rfl

-- A save may change the container and the temporary file beside it.
theorem lookup_save {q : Path} (hsealed : q ≠ sealed)
    (htmp : q ≠ withExtension sealed "zbacs.tmp") :
    (save L sealed mat held device signer env fs).fs.lookup q = fs.lookup q := by
  unfold save
  split
  · rfl
  · split
    · rfl
    · split
      · rfl
      · split
        · rfl
        · split
          · rfl
          · split
            · rename_i hseal
              exact (congrArg (·.2.lookup q) hseal).symm.trans
                (lookup_resealAsRecipientToPath _ _ _ _ hsealed htmp)
            · rename_i hseal
              exact (congrArg (·.2.lookup q) hseal).symm.trans
                (lookup_resealAsRecipientToPath _ _ _ _ hsealed htmp)
            · rename_i hseal
              rw [announceVersion_fs]
              exact (congrArg (·.2.lookup q) hseal).symm.trans
                (lookup_resealAsRecipientToPath _ _ _ _ hsealed htmp)

-- A save that went through has resealed what was in the workspace file.
theorem save_eq_ok {saved : Saved}
    (h : (save L sealed mat held device signer env fs).result = .ok saved) :
    ∃ dek policy header, resealAsRecipientToPath L.toPrimitives mat.plain sealed dek signer policy
      env.rng env.disk fs = (.ok header, (save L sealed mat held device signer env fs).fs) := by
  unfold save at h ⊢
  by_cases hstate : held.session.state ≠ .resealing
  · rw [if_pos hstate] at h
    cases h
  · rw [if_neg hstate] at h ⊢
    cases hkey : grantKey L held device with
    | error e =>
        rw [hkey] at h
        cases h
    | ok got =>
        obtain ⟨terms, dek⟩ := got
        simp only [hkey] at h ⊢
        cases hfile : fs.readFile sealed with
        | none =>
            rw [hfile] at h
            cases h
        | some container =>
            simp only [hfile] at h ⊢
            cases hinspect : inspect L.toPrimitives (.ofData container env.disk.offer) with
            | error e =>
                rw [hinspect] at h
                cases h
            | ok prev =>
                simp only [hinspect] at h ⊢
                by_cases hversion : prev.2 ≠ terms.headerHash
                · rw [if_pos hversion] at h
                  cases h
                · rw [if_neg hversion] at h ⊢
                  split at h
                  · cases h
                  · cases h
                  · rename_i header fs' hreseal
                    refine ⟨dek, prev.1.body.pol, header, ?_⟩
                    rw [hreseal, announceVersion_fs]

-- Without the container there is nothing to make a version of.
theorem save_missing {terms : AccessGrantTerms} {dek : Dek} (hstate : held.session.state = .resealing)
    (hkey : grantKey L held device = .ok (terms, dek)) (hfile : fs.readFile sealed = none) :
    save L sealed mat held device signer env fs = ⟨.error .missing, held, fs, []⟩ := by
  simp only [save, hstate, hkey, hfile, ne_eq, not_true_eq_false, if_false]

section Success

variable {plaintext out headerBytes frames : Bytes} {ownerPk : FixedBytes 32} {author : SigningKeys}
  {opts : SealOptions} {rng : SealRandom} {h : Header}

-- The first envelope of a sealed header is the owner's, and it encodes.
theorem ownerEnvelope_ok (hP : L.toPrimitives.Lawful)
    (s : SealedAs L.toPrimitives plaintext ownerPk author opts rng h out headerBytes frames) :
    ∃ e rest bytes, h.body.env = e :: rest ∧ L.envelopeCodec.encode e = .ok bytes := by
  have henv := sealEnvelopes_eq_ok s.header.env
  cases hes : h.body.env with
  | nil =>
      rw [hes] at henv
      cases henv
  | cons e rest =>
      rw [hes] at henv
      cases henv with
      | cons hseal _ =>
          obtain ⟨seed, hseal⟩ := hseal
          obtain ⟨bytes, hencode, -⟩ := sealDek_encodes hP hseal
          exact ⟨e, rest, bytes, rfl, hencode⟩

variable (held device signer sealed mat env fs) in
-- A save of the granted version, with a relay that takes the notice: the container on
-- disk is the next version, and the session is told its number.
theorem save_ok (hP : L.toPrimitives.Lawful)
    (s : SealedAs L.toPrimitives plaintext ownerPk author opts rng h out headerBytes frames)
    (hopts : opts.Sealable L.toPrimitives) (hver : h.body.ver.toNat < 2 ^ 32 - 1)
    (hpk : L.hpke.ValidKey ownerPk.bytes) (hquiet : env.disk.Quiet) (hrelay : env.relay = .ok ())
    (hstate : held.session.state = .resealing) {terms : AccessGrantTerms}
    (hkey : grantKey L held device = .ok (terms, rng.dek))
    (hversion : terms.headerHash = L.sha256 headerBytes) (hfile : fs.readFile sealed = some out)
    {edited : Bytes} (hin : fs.readFile mat.plain = some edited) (hlen : edited.length < 2 ^ 64)
    (htmp : fs.lookup (withExtension sealed "zbacs.tmp") ≠ some .dir) :
    ∃ h' out' headerBytes' frames' saved,
      Announced held env saved (save L sealed mat held device signer env fs) ∧
      saved.ver = h'.body.ver ∧ saved.notice.ver = h'.body.ver ∧
      sealSigned L.toPrimitives (.ofData edited env.disk.offer hlen) env.disk.sink ownerPk signer
        (recipientOptions h (L.sha256 headerBytes) h.body.pol opts.fileName) env.rng =
          .ok (h', out') ∧
      SealedAs L.toPrimitives edited ownerPk signer
        (recipientOptions h (L.sha256 headerBytes) h.body.pol opts.fileName) env.rng h' out'
        headerBytes' frames' ∧
      (save L sealed mat held device signer env fs).fs.readFile sealed = some out' := by
  obtain ⟨h', out', headerBytes', frames', fs', hreseal, hseal, s', hthere, -⟩ :=
    resealAsRecipientToPath_ok hP s hopts hver hpk signer h.body.pol env.rng hquiet hin hlen hfile htmp
  have hopts' := s.recipientOptions_sealable hopts hver (L.sha256 headerBytes) h.body.pol
  obtain ⟨e, rest, bytes, henv, hencode⟩ := ownerEnvelope_ok hP s'
  have hsave : ∃ saved, save L sealed mat held device signer env fs =
      ⟨.ok saved, { held with session := held.session.applied (.resealed saved.ver) env.now }, fs',
        [saved.notice]⟩ ∧ saved.ver = h'.body.ver ∧ saved.notice.ver = h'.body.ver := by
    simp only [save, hstate, hkey, hfile, s.inspect_eq hP hopts.withinLimits, hversion, hreseal, announceVersion,
      hthere, s'.inspect_eq hP hopts'.withinLimits, henv, hencode, hrelay, ne_eq, not_true_eq_false, if_false]
    exact ⟨_, rfl, rfl, rfl⟩
  obtain ⟨saved, heq, hsaved, hnotice⟩ := hsave
  refine ⟨h', out', headerBytes', frames', saved, ?_, hsaved, hnotice, hseal, s', by rw [heq]; exact hthere⟩
  exact ⟨by rw [heq], by rw [heq], by rw [heq]⟩

end Success

end Zbacs.Agent
