import Zbacs.Lib.Fs

namespace Zbacs.Lib

-- Programs that work on a file system, any call of which may fail, and that may be stopped
-- before any of them.
inductive Prog (α : Type) where
  | done (a : α)
  | read (p : Path) (next : Option Bytes → Prog α)
  | create (p : Path) (next : Bool → Prog α)
  | write (p : Path) (content : Bytes) (next : Bool → Prog α)
  | sync (p : Path) (next : Bool → Prog α)
  | rename (src dst : Path) (next : Bool → Prog α)

-- How a program may end: with a result, or stopped on the way. A write that fails or is stopped
-- leaves anything at all in its file; a rename happens or does not.
inductive Runs {α : Type} : Prog α → Fs → Option α → Fs → Prop where
  | stopped (prog : Prog α) (fs : Fs) : Runs prog fs none fs
  | done (a : α) (fs : Fs) : Runs (.done a) fs (some a) fs
  | read {p : Path} {next : Option Bytes → Prog α} {fs fs' : Fs} {r : Option α} {content : Bytes}
      (hread : fs.readFile p = some content) (hnext : Runs (next (some content)) fs r fs') :
      Runs (.read p next) fs r fs'
  | readFails {p : Path} {next : Option Bytes → Prog α} {fs fs' : Fs} {r : Option α}
      (hnext : Runs (next none) fs r fs') : Runs (.read p next) fs r fs'
  | create {p : Path} {next : Bool → Prog α} {fs fs' : Fs} {r : Option α} (hname : p ≠ [])
      (hdir : fs.lookup p ≠ some .dir) (hnext : Runs (next true) (fs.insert p (.file [] false)) r fs') :
      Runs (.create p next) fs r fs'
  | createFails {p : Path} {next : Bool → Prog α} {fs fs' : Fs} {r : Option α}
      (hnext : Runs (next false) fs r fs') : Runs (.create p next) fs r fs'
  | write {p : Path} {content : Bytes} {next : Bool → Prog α} {fs fs' : Fs} {r : Option α}
      (hnext : Runs (next true) (fs.insert p (.file content false)) r fs') :
      Runs (.write p content next) fs r fs'
  | writeFails {p : Path} {content : Bytes} {next : Bool → Prog α} {fs fs' : Fs} {r : Option α}
      (torn : Bytes) (hnext : Runs (next false) (fs.insert p (.file torn false)) r fs') :
      Runs (.write p content next) fs r fs'
  | writeStopped {p : Path} {content : Bytes} {next : Bool → Prog α} {fs : Fs} (torn : Bytes) :
      Runs (.write p content next) fs none (fs.insert p (.file torn false))
  | sync {p : Path} {next : Bool → Prog α} {fs fs' : Fs} {r : Option α} (ok : Bool)
      (hnext : Runs (next ok) fs r fs') : Runs (.sync p next) fs r fs'
  | rename {src dst : Path} {next : Bool → Prog α} {fs fs₁ fs' : Fs} {r : Option α}
      (hrename : fs.rename src dst = some fs₁) (hnext : Runs (next true) fs₁ r fs') :
      Runs (.rename src dst next) fs r fs'
  | renameFails {src dst : Path} {next : Bool → Prog α} {fs fs' : Fs} {r : Option α}
      (hnext : Runs (next false) fs r fs') : Runs (.rename src dst next) fs r fs'

-- However the program ends, `inv` holds; and if it ends with a result, `post` does.
def Holds {α : Type} (inv : Fs → Prop) (post : α → Fs → Prop) (prog : Prog α) (fs : Fs) : Prop :=
  ∀ r fs', Runs prog fs r fs' → inv fs' ∧ ∀ a, r = some a → post a fs'

namespace Holds

variable {α : Type} {inv : Fs → Prop} {post : α → Fs → Prop} {fs : Fs} {p src dst : Path}
  {content : Bytes}

theorem done {a : α} (hinv : inv fs) (hpost : post a fs) : Holds inv post (.done a) fs := by
  intro r fs' h
  cases h with
  | stopped => exact ⟨hinv, fun _ h => nomatch h⟩
  | done =>
      refine ⟨hinv, fun a' h => ?_⟩
      cases h
      exact hpost

theorem read {next : Option Bytes → Prog α} (hinv : inv fs)
    (hread : ∀ content, fs.readFile p = some content → Holds inv post (next (some content)) fs)
    (hfails : Holds inv post (next none) fs) : Holds inv post (.read p next) fs := by
  intro r fs' h
  cases h with
  | stopped => exact ⟨hinv, fun _ h => nomatch h⟩
  | read hcontent hnext => exact hread _ hcontent _ _ hnext
  | readFails hnext => exact hfails _ _ hnext

theorem create {next : Bool → Prog α} (hinv : inv fs)
    (hcreate : p ≠ [] → fs.lookup p ≠ some .dir →
      Holds inv post (next true) (fs.insert p (.file [] false)))
    (hfails : Holds inv post (next false) fs) : Holds inv post (.create p next) fs := by
  intro r fs' h
  cases h with
  | stopped => exact ⟨hinv, fun _ h => nomatch h⟩
  | create hname hdir hnext => exact hcreate hname hdir _ _ hnext
  | createFails hnext => exact hfails _ _ hnext

theorem write {next : Bool → Prog α} (hinv : inv fs)
    (htorn : ∀ torn, inv (fs.insert p (.file torn false)))
    (hwrite : Holds inv post (next true) (fs.insert p (.file content false)))
    (hfails : ∀ torn, Holds inv post (next false) (fs.insert p (.file torn false))) :
    Holds inv post (.write p content next) fs := by
  intro r fs' h
  cases h with
  | stopped => exact ⟨hinv, fun _ h => nomatch h⟩
  | write hnext => exact hwrite _ _ hnext
  | writeFails torn hnext => exact hfails torn _ _ hnext
  | writeStopped torn => exact ⟨htorn torn, fun _ h => nomatch h⟩

theorem sync {next : Bool → Prog α} (hinv : inv fs) (hsync : Holds inv post (next true) fs)
    (hfails : Holds inv post (next false) fs) : Holds inv post (.sync p next) fs := by
  intro r fs' h
  cases h with
  | stopped => exact ⟨hinv, fun _ h => nomatch h⟩
  | sync ok hnext =>
      cases ok with
      | true => exact hsync _ _ hnext
      | false => exact hfails _ _ hnext

theorem rename {next : Bool → Prog α} (hinv : inv fs)
    (hrename : ∀ fs', fs.rename src dst = some fs' → Holds inv post (next true) fs')
    (hfails : Holds inv post (next false) fs) : Holds inv post (.rename src dst next) fs := by
  intro r fs' h
  cases h with
  | stopped => exact ⟨hinv, fun _ h => nomatch h⟩
  | rename hmoved hnext => exact hrename _ hmoved _ _ hnext
  | renameFails hnext => exact hfails _ _ hnext

end Holds

end Zbacs.Lib
