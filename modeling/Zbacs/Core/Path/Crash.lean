import Zbacs.Core.Path.Theorems
import Zbacs.Lib.Crash

namespace Zbacs.Core

open Zbacs.Lib

-- The functions that write a container, call by call. `offer` and `sink` say how the plaintext is
-- handed out and which writes fail.

section

variable (P : Primitives) (offer : Nat → Nat) (sink : Sink)

def failed : Prog (Result Header) := .done (.error (.io .other))

-- `seal_signed_to_path`: the plaintext is opened, the temporary file is created, then the
-- plaintext is read.
def sealSignedCalls (inPath outPath : Path) (ownerPk : FixedBytes 32) (signer : SigningKeys)
    (opts : SealOptions) (rng : SealRandom) : Prog (Result Header) :=
  let tmp := withExtension outPath "zbacs.tmp"
  .read inPath fun
    | none => failed
    | some _ => .create tmp fun
      | false => failed
      | true => .read inPath fun
        | none => failed
        | some plaintext =>
          if h : plaintext.length < 2 ^ 64 then
            match sealSigned P (.ofData plaintext offer h) sink ownerPk signer opts rng with
            -- some of the container may have been written by then
            | .error e => .write tmp [] fun _ => .done (.error e)
            | .ok (header, out) => .write tmp out fun
              | false => failed
              | true => .sync tmp fun
                | false => failed
                | true => .rename tmp outPath fun
                  | false => failed
                  | true => .done (.ok header)
          else failed

-- `seal_to_path`
def sealCalls (inPath outPath : Path) (owner : OwnerKeys P) (opts : SealOptions) (rng : SealRandom) :
    Prog (Result Header) :=
  sealSignedCalls P offer sink inPath outPath owner.sealing.x25519Pk owner.signing opts rng

-- `reseal_to_path`
def resealCalls (plaintextPath containerPath : Path) (owner : OwnerKeys P) (policy : Policy)
    (rng : SealRandom) : Prog (Result Header) :=
  .read containerPath fun
    | none => failed
    | some container => match inspect P (.ofData container offer) with
      | .error e => .done (.error e)
      | .ok (prev, prevHash) =>
        match prev.body.env.find? (fun e => e.kid = owner.sealing.keyId) with
        | none => .done (.error .noEnvelope)
        | some mine => match mine.openDek owner.sealing prev.body.fid.bytes with
          | .error e => .done (.error e)
          | .ok prevDek => match decryptName P prev prevDek with
            | .error e => .done (.error e)
            | .ok name => sealCalls P offer sink plaintextPath containerPath owner
                (recipientOptions prev prevHash policy name) rng

-- `reseal_as_recipient_to_path`
def resealAsRecipientCalls (plaintextPath containerPath : Path) (prevDek : Dek)
    (signer : SigningKeys) (policy : Policy) (rng : SealRandom) : Prog (Result Header) :=
  .read containerPath fun
    | none => failed
    | some container => match inspect P (.ofData container offer) with
      | .error e => .done (.error e)
      | .ok (prev, prevHash) => match prev.body.opub with
        | none => .done (.error .noOwnerKey)
        | some opub => match decryptName P prev prevDek with
          | .error e => .done (.error e)
          | .ok name => sealSignedCalls P offer sink plaintextPath containerPath opub signer
              (recipientOptions prev prevHash policy name) rng

end

-- The bytes a seal that went through has written.
def Sealed (P : Primitives) (header : Header) (container : Bytes) : Prop :=
  ∃ input sink ownerPk signer opts rng,
    sealSigned P input sink ownerPk signer opts rng = .ok (header, container)

-- At the path is what was there before, or a whole container.
def OldOrSealed (P : Primitives) (path : Path) (fs fs' : Fs) : Prop :=
  fs'.lookup path = fs.lookup path ∨
    ∃ header container, fs'.readFile path = some container ∧ Sealed P header container

-- An error leaves what was there; a header comes with its container.
def Reported (P : Primitives) (path : Path) (fs : Fs) (result : Result Header) (fs' : Fs) : Prop :=
  match result with
  | .error _ => fs'.lookup path = fs.lookup path
  | .ok header => ∃ container, fs'.readFile path = some container ∧ Sealed P header container

section Seals

variable {P : Primitives} {offer : Nat → Nat} {sink : Sink} {fs : Fs} {path : Path}

theorem holds_failed {fs' : Fs} (hsame : fs'.lookup path = fs.lookup path) :
    Holds (OldOrSealed P path fs) (Reported P path fs) failed fs' := .done (.inl hsame) hsame

theorem holds_error {fs' : Fs} (hsame : fs'.lookup path = fs.lookup path) (e : Error) :
    Holds (OldOrSealed P path fs) (Reported P path fs) (.done (.error e)) fs' :=
  .done (.inl hsame) hsame

theorem holds_sealSignedCalls (fs : Fs) {fs₁ : Fs} {inPath outPath : Path}
    (hsame : fs₁.lookup outPath = fs.lookup outPath) (ownerPk : FixedBytes 32) (signer : SigningKeys)
    (opts : SealOptions) (rng : SealRandom) :
    Holds (OldOrSealed P outPath fs) (Reported P outPath fs)
      (sealSignedCalls P offer sink inPath outPath ownerPk signer opts rng) fs₁ := by
  have hkept : ∀ {fs' : Fs}, fs'.lookup outPath = fs.lookup outPath →
      OldOrSealed P outPath fs fs' := .inl
  refine .read (hkept hsame) (fun _ _ => ?_) (holds_failed hsame)
  refine .create (hkept hsame) (fun hname _ => ?_) (holds_failed hsame)
  -- what is done to the temporary file does not touch the container
  have hother : ∀ {fs' : Fs} {n : Node}, fs'.lookup outPath = fs.lookup outPath →
      (fs'.insert (withExtension outPath "zbacs.tmp") n).lookup outPath = fs.lookup outPath := by
    intro fs' n h
    have hpath : outPath ≠ [] := by
      rintro rfl
      exact hname rfl
    rw [Fs.lookup_insert_ne _ (withExtension_ne hpath).symm, h]
  have hnew := hother (n := .file [] false) hsame
  refine .read (hkept hnew) (fun plaintext _ => ?_) (holds_failed hnew)
  dsimp only
  split_ifs with hlen
  swap
  · exact holds_failed hnew
  cases hseal : sealSigned P (.ofData plaintext offer hlen) sink ownerPk signer opts rng with
  | error e =>
      exact .write (hkept hnew) (fun torn => hkept (hother hnew))
        (holds_error (hother hnew) e) fun torn => holds_error (hother hnew) e
  | ok sealed =>
      obtain ⟨header, out⟩ := sealed
      refine .write (hkept hnew) (fun torn => hkept (hother hnew)) ?_ fun torn => holds_failed (hother hnew)
      have hwritten := hother (n := .file out false) hnew
      refine .sync (hkept hwritten) ?_ (holds_failed hwritten)
      refine .rename (hkept hwritten) (fun fs' hrename => ?_) (holds_failed hwritten)
      have hthere := Fs.lookup_of_rename (Fs.lookup_insert_self _ _) hrename
      have hcontainer : fs'.readFile outPath = some out := by simp only [Fs.readFile, hthere]
      have hsealed : Sealed P header out := ⟨_, _, _, _, _, _, hseal⟩
      exact .done (.inr ⟨header, out, hcontainer, hsealed⟩) ⟨out, hcontainer, hsealed⟩

theorem holds_resealCalls (fs : Fs) (plaintextPath containerPath : Path) (owner : OwnerKeys P)
    (policy : Policy) (rng : SealRandom) :
    Holds (OldOrSealed P containerPath fs) (Reported P containerPath fs)
      (resealCalls P offer sink plaintextPath containerPath owner policy rng) fs := by
  refine .read (.inl rfl) (fun container _ => ?_) (holds_failed rfl)
  dsimp only
  cases inspect P (.ofData container offer) with
  | error e => exact holds_error rfl e
  | ok found =>
      obtain ⟨prev, prevHash⟩ := found
      dsimp only
      cases prev.body.env.find? fun e => e.kid = owner.sealing.keyId with
      | none => exact holds_error rfl .noEnvelope
      | some mine =>
          dsimp only
          cases mine.openDek owner.sealing prev.body.fid.bytes with
          | error e => exact holds_error rfl e
          | ok prevDek =>
              dsimp only
              cases decryptName P prev prevDek with
              | error e => exact holds_error rfl e
              | ok name => exact holds_sealSignedCalls fs rfl _ _ _ rng

theorem holds_resealAsRecipientCalls (fs : Fs) (plaintextPath containerPath : Path) (prevDek : Dek)
    (signer : SigningKeys) (policy : Policy) (rng : SealRandom) :
    Holds (OldOrSealed P containerPath fs) (Reported P containerPath fs)
      (resealAsRecipientCalls P offer sink plaintextPath containerPath prevDek signer policy rng) fs := by
  refine .read (.inl rfl) (fun container _ => ?_) (holds_failed rfl)
  dsimp only
  cases inspect P (.ofData container offer) with
  | error e => exact holds_error rfl e
  | ok found =>
      obtain ⟨prev, prevHash⟩ := found
      dsimp only
      cases prev.body.opub with
      | none => exact holds_error rfl .noOwnerKey
      | some opub =>
          dsimp only
          cases decryptName P prev prevDek with
          | error e => exact holds_error rfl e
          | ok name => exact holds_sealSignedCalls fs rfl _ _ _ rng

end Seals

-- What the functions do when nothing stops them is one of these runs.

section Simulation

variable {P : Primitives} {env : SealEnv} {fs : Fs}

theorem sealSignedToPath_runs {inPath outPath : Path} (hout : outPath ≠ [])
    (hin : inPath ≠ withExtension outPath "zbacs.tmp") (ownerPk : FixedBytes 32)
    (signer : SigningKeys) (opts : SealOptions) (rng : SealRandom) :
    Runs (sealSignedCalls P env.offer env.sink inPath outPath ownerPk signer opts rng) fs
      (some (sealSignedToPath P inPath outPath ownerPk signer opts rng env fs).1)
      (sealSignedToPath P inPath outPath ownerPk signer opts rng env fs).2 := by
  unfold sealSignedCalls sealSignedToPath
  cases hread : fs.readFile inPath with
  | none => exact .readFails (.done _ _)
  | some plaintext =>
      dsimp only
      by_cases hopen : env.openInput = false ∧ plaintext.length < 2 ^ 64
      swap
      · rw [dif_neg hopen]
        exact .readFails (.done _ _)
      rw [dif_pos hopen]
      generalize htmpEq : withExtension outPath "zbacs.tmp" = tmp at hin ⊢
      have htmp : tmp ≠ [] := htmpEq ▸ withExtension_ne_nil hout
      by_cases hcreate : env.createTmp = true ∨ fs.lookup tmp = some .dir
      · rw [if_pos hcreate]
        exact .read hread (.createFails (.done _ _))
      rw [if_neg hcreate]
      have hagain : (fs.insert tmp (.file [] false)).readFile inPath = some plaintext := by
        rw [← hread]
        simp only [Fs.readFile, Fs.lookup_insert_ne _ hin]
      refine .read hread (.create htmp (not_or.mp hcreate).2 (.read hagain ?_))
      dsimp only
      rw [dif_pos hopen.2]
      cases sealSigned P (.ofData plaintext env.offer hopen.2) env.sink ownerPk signer opts rng with
      | error e =>
          dsimp only
          rw [← Fs.insert_insert tmp (.file [] false) (.file env.leftover false)]
          exact .writeFails env.leftover (.done _ _)
      | ok sealed =>
          obtain ⟨header, out⟩ := sealed
          dsimp only
          rw [← Fs.insert_insert tmp (.file [] false) (.file out false)]
          refine .write ?_
          by_cases hsync : env.sync = true
          · rw [if_pos hsync]
            exact .sync false (.done _ _)
          rw [if_neg hsync]
          refine .sync true ?_
          by_cases hrename : env.rename = true
          · rw [if_pos hrename]
            exact .renameFails (.done _ _)
          rw [if_neg hrename]
          cases hmoved : ((fs.insert tmp (.file [] false)).insert tmp (.file out false)).rename tmp
            outPath with
          | none => exact .renameFails (.done _ _)
          | some fs' => exact .rename hmoved (.done _ _)

theorem resealToPath_runs {plaintextPath containerPath : Path} (hout : containerPath ≠ [])
    (hin : plaintextPath ≠ withExtension containerPath "zbacs.tmp") (owner : OwnerKeys P)
    (policy : Policy) (rng : SealRandom) :
    Runs (resealCalls P env.offer env.sink plaintextPath containerPath owner policy rng) fs
      (some (resealToPath P plaintextPath containerPath owner policy rng env fs).1)
      (resealToPath P plaintextPath containerPath owner policy rng env fs).2 := by
  unfold resealCalls resealToPath
  cases hread : fs.readFile containerPath with
  | none => exact .readFails (.done _ _)
  | some container =>
      refine .read hread ?_
      dsimp only
      cases inspect P (.ofData container env.offer) with
      | error e => exact .done _ _
      | ok found =>
          obtain ⟨prev, prevHash⟩ := found
          dsimp only
          cases prev.body.env.find? fun e => e.kid = owner.sealing.keyId with
          | none => exact .done _ _
          | some mine =>
              dsimp only
              cases mine.openDek owner.sealing prev.body.fid.bytes with
              | error e => exact .done _ _
              | ok prevDek =>
                  dsimp only
                  cases decryptName P prev prevDek with
                  | error e => exact .done _ _
                  | ok name => exact sealSignedToPath_runs hout hin _ _ _ rng

theorem resealAsRecipientToPath_runs {plaintextPath containerPath : Path} (hout : containerPath ≠ [])
    (hin : plaintextPath ≠ withExtension containerPath "zbacs.tmp") (prevDek : Dek)
    (signer : SigningKeys) (policy : Policy) (rng : SealRandom) :
    Runs (resealAsRecipientCalls P env.offer env.sink plaintextPath containerPath prevDek signer policy
        rng) fs
      (some (resealAsRecipientToPath P plaintextPath containerPath prevDek signer policy rng env fs).1)
      (resealAsRecipientToPath P plaintextPath containerPath prevDek signer policy rng env fs).2 := by
  unfold resealAsRecipientCalls resealAsRecipientToPath
  cases hread : fs.readFile containerPath with
  | none => exact .readFails (.done _ _)
  | some container =>
      refine .read hread ?_
      dsimp only
      cases inspect P (.ofData container env.offer) with
      | error e => exact .done _ _
      | ok found =>
          obtain ⟨prev, prevHash⟩ := found
          dsimp only
          cases prev.body.opub with
          | none => exact .done _ _
          | some opub =>
              dsimp only
              cases decryptName P prev prevDek with
              | error e => exact .done _ _
              | ok name => exact sealSignedToPath_runs hout hin _ _ _ rng

end Simulation

-- However a seal or a reseal fails, and wherever it is stopped, at the path is what was there before
-- or a whole container; when an error is returned it is what was there before.
theorem replace_atomic (P : Primitives) (offer : Nat → Nat) (sink : Sink) (fs : Fs) :
    (∀ inPath outPath owner opts rng,
      Holds (OldOrSealed P outPath fs) (Reported P outPath fs)
        (sealCalls P offer sink inPath outPath owner opts rng) fs) ∧
    (∀ plaintextPath containerPath owner policy rng,
      Holds (OldOrSealed P containerPath fs) (Reported P containerPath fs)
        (resealCalls P offer sink plaintextPath containerPath owner policy rng) fs) ∧
    ∀ plaintextPath containerPath prevDek signer policy rng,
      Holds (OldOrSealed P containerPath fs) (Reported P containerPath fs)
        (resealAsRecipientCalls P offer sink plaintextPath containerPath prevDek signer policy rng) fs :=
  ⟨fun _ _ owner opts rng => holds_sealSignedCalls fs rfl owner.sealing.x25519Pk owner.signing opts rng,
    holds_resealCalls fs, holds_resealAsRecipientCalls fs⟩

end Zbacs.Core
