import Zbacs.Agent.Reference
import Zbacs.Agent.Sessions.Theorems

namespace Zbacs.Agent

open Zbacs.Lib Zbacs.Core Zbacs.Proto Zbacs.Session

namespace Sessions

variable {L : Libraries}

-- Each session has a directory to itself, and what is in it is no other session's to touch. A save
-- goes to the sealed file, wherever that is.
structure Isolated (pid : Nat)
    (x : Taken (Sessions L) (SessionsTurn L) (List SessionReport)) : Prop where
  directories : ∀ (i j : Nat) (t u : SessionThread L), x.after.threads[i]? = some t → x.after.threads[j]? = some u → i ≠ j →
    t.InProgress → u.InProgress → t.directory pid ≠ u.directory pid
  files : ∀ i input t, x.input = .session (.resume i input) → x.before.threads[i]? = some t →
    ∀ j u, x.before.threads[j]? = some u → i ≠ j → u.InProgress → ∀ q, u.directory pid <+: q →
      x.after.shared.lookup q = x.before.shared.lookup q ∨ t.SavesTo q

-- No session passes the checks of its open that was called in the same second as one in progress.
def StartsApart (x : Taken (Sessions L) (SessionsTurn L) (List SessionReport)) : Prop :=
  ∀ i input t, x.input = .session (.resume i input) → x.before.threads[i]? = some t →
    t.Begins input.env x.before.shared → ∀ u ∈ x.before.threads, u.InProgress →
      u.startedAt ≠ t.startedAt

-- What every session keeps to, under one base directory.
structure Kept (pid : Nat) (base : Path) (s : Sessions L) : Prop where
  base : ∀ t ∈ s.threads, t.running.base = base
  placed : ∀ t ∈ s.threads, SessionThread.Placed (t.directory pid) t.stage

def Apart (s : Sessions L) : Prop :=
  ∀ (i j : Nat) (t u : SessionThread L), s.threads[i]? = some t → s.threads[j]? = some u → i ≠ j →
    t.InProgress → u.InProgress → t.startedAt ≠ u.startedAt

section Progress

variable {pid : Nat} {t : SessionThread L} {input : SessionInput} {fs : Fs}

theorem not_inProgress_called (h : t.stage = .called) : ¬t.InProgress := by
  rw [SessionThread.InProgress, h]
  exact id

theorem inProgress_run_of_begins (h : t.Begins input.env fs) : (t.run pid input fs).2.1.InProgress := by
  obtain ⟨hstage, a, hchecks, hwipe⟩ := h
  have hrun : t.run pid input fs = ([], (t.hold a.session).goTo (.creating a), fs) := by
    unfold SessionThread.run SessionThread.check
    rw [hstage]
    dsimp only
    rw [hchecks]
    exact if_neg hwipe
  rw [hrun]
  trivial

theorem begins_of_inProgress_run (h : (t.run pid input fs).2.1.InProgress) :
    t.InProgress ∨ t.Begins input.env fs := by
  cases hstage : t.stage with
  | called =>
      right
      refine ⟨hstage, ?_⟩
      unfold SessionThread.run SessionThread.check at h
      rw [hstage] at h
      dsimp only at h
      cases hchecks : t.preflight input.env fs with
      | error e =>
          rw [hchecks] at h
          exact h.elim
      | ok a =>
          rw [hchecks] at h
          refine ⟨a, rfl, fun hwipe => ?_⟩
          simp only [hwipe, if_true] at h
          exact h.elim
  | ended how =>
      unfold SessionThread.run at h
      rw [hstage] at h
      simp only [SessionThread.InProgress, hstage] at h
  | _ =>
      left
      rw [SessionThread.InProgress, hstage]
      trivial

end Progress

section Turns

variable {pid : Nat} {base : Path} {s : Sessions L} {a : SessionsTurn L}

theorem turn_resume {i : Nat} {input : SessionInput} {t : SessionThread L}
    (h : s.threads[i]? = some t) :
    (turn pid base s (.session (.resume i input))).2 =
      ⟨(t.run pid input s.shared).2.2, s.threads.set i (t.run pid input s.shared).2.1⟩ :=
  congrArg Prod.snd (Threads.turn_resume h)

theorem turn_nobody {i : Nat} {input : SessionInput} (h : s.threads[i]? = none) :
    (turn pid base s (.session (.resume i input))).2 = s := by
  simp [turn, Threads.turn, h]

theorem kept_turn (h : Kept pid base s) : Kept pid base (turn pid base s a).2 := by
  cases a with
  | outside change => exact ⟨h.base, h.placed⟩
  | session t =>
      cases t with
      | start job =>
          constructor
          · intro t ht
            rcases List.mem_append.mp ht with ht | ht
            · exact h.base t ht
            · obtain rfl := List.mem_singleton.mp ht
              rfl
          · intro t ht
            rcases List.mem_append.mp ht with ht | ht
            · exact h.placed t ht
            · obtain rfl := List.mem_singleton.mp ht
              trivial
      | resume i input =>
          cases hthread : s.threads[i]? with
          | none =>
              rw [turn_nobody hthread]
              exact h
          | some t =>
              have hmem := List.mem_of_getElem? hthread
              have hrun := SessionThread.confined_run pid (h.placed t hmem) input s.shared
              rw [turn_resume hthread]
              constructor
              · intro u hu
                rcases List.mem_or_eq_of_mem_set hu with hu | rfl
                · exact h.base u hu
                · exact hrun.base.trans (h.base t hmem)
              · intro u hu
                rcases List.mem_or_eq_of_mem_set hu with hu | rfl
                · exact h.placed u hu
                · rw [hrun.directory]
                  exact hrun.placed

-- Sessions that are apart stay so, as long as none begins in the second of another.
theorem apart_turn (h : Kept pid base s) (hapart : Apart s)
    (hstarts : StartsApart (taken (turn pid base) s a)) : Apart (turn pid base s a).2 := by
  cases a with
  | outside change => exact hapart
  | session t =>
      cases t with
      | start job =>
          -- the new session has not begun
          intro i j t u ht hu hij htp hup
          have hold : ∀ (k : Nat) (v : SessionThread L), (s.threads ++ [enter base job])[k]? = some v →
              v.InProgress → s.threads[k]? = some v := by
            intro k v hv hvp
            obtain hsame | ⟨job', -, rfl⟩ | ⟨input, thread, hturn, -⟩ :=
              @Threads.thread_cases _ _ _ _ _ (enter base) (SessionThread.run pid) s (.start job) k v hv
            · exact hsame
            · exact absurd hvp (not_inProgress_called rfl)
            · cases hturn
          exact hapart i j t u (hold i t ht htp) (hold j u hu hup) hij htp hup
      | resume k input =>
          cases hthread : s.threads[k]? with
          | none =>
              rw [turn_nobody hthread]
              exact hapart
          | some v =>
              have hrun := SessionThread.confined_run pid (h.placed v (List.mem_of_getElem? hthread))
                input s.shared
              have hlt := (List.getElem?_eq_some_iff.mp hthread).1
              -- the session that went on, and any other one
              have hother : ∀ j u, s.threads[j]? = some u → k ≠ j → u.InProgress →
                  (v.run pid input s.shared).2.1.InProgress →
                  (v.run pid input s.shared).2.1.startedAt ≠ u.startedAt := by
                intro j u hu hkj hup hvp
                rw [hrun.startedAt]
                rcases begins_of_inProgress_run hvp with hv | hv
                · exact hapart k j v u hthread hu hkj hv hup
                · exact (hstarts k input v rfl hthread hv u (List.mem_of_getElem? hu) hup).symm
              rw [turn_resume hthread]
              intro i j t u ht hu hij htp hup
              rw [List.getElem?_set] at ht hu
              by_cases hi : k = i
              · subst hi
                simp only [hlt, if_true, Option.some.injEq, hij, if_false] at ht hu
                subst ht
                exact hother j u hu hij hup htp
              · simp only [hi, if_false] at ht
                by_cases hj : k = j
                · subst hj
                  simp only [hlt, if_true, Option.some.injEq] at hu
                  subst hu
                  exact (hother i t ht hi htp hup).symm
                · simp only [hj, if_false] at hu
                  exact hapart i j t u ht hu hij htp hup

-- Under one base directory, the second of the call is the directory.
theorem directory_eq (h : Kept pid base s) {t u : SessionThread L} (ht : t ∈ s.threads)
    (hu : u ∈ s.threads) : t.directory pid = u.directory pid ↔ t.startedAt = u.startedAt := by
  rw [SessionThread.directory, SessionThread.directory, h.base t ht, h.base u hu]
  simp [sessionIdOf_inj]

-- Sessions that are apart are isolated.
theorem isolated_turn (h : Kept pid base s) (hapart : Apart s)
    (hstarts : StartsApart (taken (turn pid base) s a)) : Isolated pid (taken (turn pid base) s a) := by
  constructor
  · intro i j t u ht hu hij htp hup
    exact (directory_eq (kept_turn h) (List.mem_of_getElem? ht) (List.mem_of_getElem? hu)).not.mpr
      (apart_turn h hapart hstarts i j t u ht hu hij htp hup)
  · rintro i input t hinput ht j u hu hij hup q hq
    have hrun := SessionThread.confined_run pid (h.placed t (List.mem_of_getElem? ht)) input s.shared
    have hafter : (taken (turn pid base) s a).after.shared = (t.run pid input s.shared).2.2 := by
      obtain rfl : a = .session (.resume i input) := hinput
      exact congrArg Threads.shared (turn_resume ht)
    rw [hafter]
    by_cases hsaves : t.SavesTo q
    · exact .inr hsaves
    · by_cases htp : t.InProgress
      · left
        have hne := hapart i j t u ht hu hij htp hup
        have hbase := h.base t (List.mem_of_getElem? ht)
        rw [SessionThread.directory, h.base u (List.mem_of_getElem? hu)] at hq
        refine hrun.frame q ?_ ?_ hsaves
        · rw [SessionThread.directory, hbase]
          exact not_prefix_of_ne (fun hid => hne (sessionIdOf_inj.mp hid).symm) hq
        · rw [hbase]
          exact not_mem_ancestors_of_prefix hq
      · -- before its checks, and once it is over, a session leaves the disk alone
        left
        unfold SessionThread.run
        cases hstage : t.stage with
        | called => exact congrArg (·.lookup q) SessionThread.check_fs
        | ended how => rfl
        | _ =>
            rw [SessionThread.InProgress, hstage] at htp
            exact absurd trivial htp

theorem isolated_of_startsApart {turns : List (SessionsTurn L)} (h : Kept pid base s)
    (hapart : Apart s) (hstarts : ∀ x ∈ trace (turn pid base) turns s, StartsApart x) :
    ∀ x ∈ trace (turn pid base) turns s, Isolated pid x := by
  induction turns generalizing s with
  | nil => simp [trace]
  | cons a turns ih =>
      simp only [trace, List.forall_mem_cons] at hstarts ⊢
      exact ⟨isolated_turn h hapart hstarts.1, ih (kept_turn h) (apart_turn h hapart hstarts.1) hstarts.2⟩

-- A session that begins in the second of another one shares its directory.
theorem startsApart_of_isolated (h : Kept pid base s)
    (hisolated : Isolated pid (taken (turn pid base) s a)) :
    StartsApart (taken (turn pid base) s a) := by
  intro i input t hinput ht hbegins u hu hup hsame
  obtain rfl : a = .session (.resume i input) := hinput
  obtain ⟨j, hj⟩ := List.getElem?_of_mem hu
  have hij : i ≠ j := by
    rintro rfl
    obtain rfl := Option.some.inj (ht.symm.trans hj)
    exact not_inProgress_called hbegins.1 hup
  have hrun := SessionThread.confined_run pid (h.placed t (List.mem_of_getElem? ht)) input s.shared
  have hi : (turn pid base s (.session (.resume i input))).2.threads[i]? =
      some (t.run pid input s.shared).2.1 := Threads.thread_ran input ht
  have hj' : (turn pid base s (.session (.resume i input))).2.threads[j]? = some u := by
    refine Threads.thread_kept hj fun input' heq => ?_
    cases heq
    exact hij rfl
  refine hisolated.directories i j _ u hi hj' hij (inProgress_run_of_begins hbegins) hup ?_
  rw [hrun.directory]
  exact (directory_eq h (List.mem_of_getElem? ht) hu).mpr hsame.symm

-- The wipe of one takes what is the other's with it.
theorem lookup_wiped {i : Nat} {input : SessionInput} {t u : SessionThread L} {workspace : Workspace}
    {how : End} (h : Kept pid base s) (ht : s.threads[i]? = some t)
    (hstage : t.stage = .deleting workspace [] how) (hremove : input.env.wipe.removeDir = false)
    (hu : u ∈ s.threads) (hsame : u.startedAt = t.startedAt) {q : Path}
    (hq : u.directory pid <+: q) :
    (turn pid base s (.session (.resume i input))).2.shared.lookup q = none := by
  have hmem := List.mem_of_getElem? ht
  have hroot := h.placed t hmem
  rw [hstage] at hroot
  have hdir : u.directory pid = t.directory pid := (directory_eq h hu hmem).mpr hsame
  have hrun : (t.run pid input s.shared).2.2 = s.shared.removeTree workspace.root := by
    unfold SessionThread.run
    rw [hstage]
    exact if_neg (by rw [hremove]; exact Bool.false_ne_true)
  rw [turn_resume ht]
  dsimp only
  rw [hrun, Fs.lookup_removeTree, hroot.1, ← hdir, if_pos hq]

-- The sessions of a process are isolated from each other in exactly the runs in which none begins
-- in the same second as one that is still in progress.
theorem sessions_isolated_iff (pid : Nat) (base : Path) (fs : Fs) (turns : List (SessionsTurn L)) :
    (∀ x ∈ trace (turn pid base) turns ⟨fs, []⟩, Isolated pid x) ↔
      ∀ x ∈ trace (turn pid base) turns ⟨fs, []⟩, StartsApart x := by
  have hkept : Kept pid base (⟨fs, []⟩ : Sessions L) := ⟨by simp, by simp⟩
  constructor
  · intro h x hx
    obtain ⟨before, a, after, -, rfl⟩ := exists_of_mem_trace hx
    exact startsApart_of_isolated (final_invariant hkept (fun s a => kept_turn) before) (h _ hx)
  · exact isolated_of_startsApart hkept (by simp [Apart])

end Turns

namespace Reference

open Zbacs.Agent.Reference

def other : Path := ["home", "b.zbacs"]

-- Two files on disk, opened in the same second.
def sameSecond (container : Bytes) (held : Held) : Fs × List (SessionsTurn libraries) :=
  let input : SessionInput := ⟨.calm 130, true, round id none false⟩
  let job (file : Path) := ({ running held with sealed := file }, (130 : UInt64))
  ((disk container).insert other (.file container false),
    [.session (.start (job Reference.sealed)), .session (.start (job other)),
      .session (.resume 0 input), .session (.resume 1 input)])

theorem same_second_not_isolated : ∃ (container : Bytes) (held : Held),
    ¬∀ x ∈ trace (turn 7 base) (sameSecond container held).2 ⟨(sameSecond container held).1, []⟩,
      Isolated 7 x := by
  obtain ⟨h, out, headerBytes, frames, -, s⟩ := container_sealed .defaultPolicy
  let held := granted (terms ⟨h.body.fid, libraries.sha256 headerBytes, h.body.own⟩ .edit 1) .edit
  refine ⟨out, held, fun hisolated => ?_⟩
  let input : SessionInput := ⟨.calm 130, true, round id none false⟩
  let session (file : Path) : SessionThread libraries :=
    enter base ({ running held with sealed := file }, 130)
  let fs := (sameSecond out held).1
  obtain ⟨r, hread, -⟩ := s.readHeader_eq libraries_lawful (options_sealable _).withinLimits
    (Reader.rest_ofData out (OpenEnv.calm 130).offer)
  have hbegins : ∀ file, fs.readFile file = some out → (session file).Begins input.env fs := by
    intro file hfile
    have hunlock : unlock libraries file held device.keys input.env fs = .ok _ :=
      unlock_eq_ok.mpr ⟨rfl, _, out, grantKey_eq rfl rfl, hfile, hread, rfl⟩
    have hopened : held.session.apply .opened 130 = .ok _ :=
      Session.apply_opened rfl (.inr (show (0 : UInt16) < 1 by decide))
    exact SessionThread.begins_of_unlock rfl hunlock hopened (by simp [held, granted])
  have hfiles : fs.readFile Reference.sealed = some out ∧ fs.readFile other = some out := by
    constructor
    · have hsame := @Fs.lookup_insert_ne (disk out) other Reference.sealed (.file out false) (by decide)
      rw [Fs.readFile, show fs.lookup Reference.sealed = _ from hsame]
      exact readFile_disk out
    · have hself := @Fs.lookup_insert_self (disk out) other (.file out false)
      rw [Fs.readFile, show fs.lookup other = _ from hself]
  have hfirst := hbegins _ hfiles.1
  have hsecond := hbegins _ hfiles.2
  -- the first one has passed its checks when the second one comes to them
  let s₂ : Sessions libraries := ⟨fs, [session Reference.sealed, session other]⟩
  let s₃ := (turn 7 base s₂ (.session (.resume 0 input))).2
  have hs₃ : s₃ = ⟨fs, [((session Reference.sealed).run 7 input fs).2.1, session other]⟩ := by
    have hrun : ((session Reference.sealed).run 7 input fs).2.2 = fs := SessionThread.check_fs
    have hturn := @turn_resume _ 7 base s₂ 0 input (session Reference.sealed) rfl
    rw [hrun] at hturn
    exact hturn
  have hkept : Kept 7 base s₂ := by
    constructor
    · intro t ht
      rcases List.mem_pair.mp ht with rfl | rfl
      · rfl
      · rfl
    · intro t ht
      rcases List.mem_pair.mp ht with rfl | rfl
      · trivial
      · trivial
  have hlast : Isolated 7 (taken (turn 7 base) s₃ (.session (.resume 1 input))) :=
    hisolated _ (taken_mem_trace [_, _, _] _ [] _)
  have hstarts := startsApart_of_isolated (kept_turn hkept) hlast
  rw [show (turn 7 base s₂ (.session (.resume 0 input))).2 = _ from hs₃] at hstarts
  have hrun := SessionThread.confined_run 7 (t := session Reference.sealed) trivial input fs
  exact hstarts 1 input (session other) rfl rfl hsecond _ List.mem_cons_self
    (inProgress_run_of_begins hfirst) hrun.startedAt

end Reference

end Sessions

end Zbacs.Agent
