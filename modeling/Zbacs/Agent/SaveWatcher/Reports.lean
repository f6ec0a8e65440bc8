import Zbacs.Agent.SaveWatcher
import Zbacs.Lib.Trace

namespace Zbacs.Agent

open Zbacs.Lib

-- When a burst of events is reported.

inductive DebounceCall where
  | sawEvent (now : Nat)
  | isDue (now : Nat)
deriving DecidableEq

def DebounceCall.now : DebounceCall → Nat
  | sawEvent now | isDue now => now

def DebounceCall.isEvent : DebounceCall → Bool
  | sawEvent _ => true
  | isDue _ => false

abbrev DebounceTaken := Taken Debounce DebounceCall (Option Bool)

namespace Debounce

-- Only `is_due` has an answer.
def step (d : Debounce) : DebounceCall → Option Bool × Debounce
  | .sawEvent now => (none, d.sawEvent now)
  | .isDue now => (some (d.isDue now).1, (d.isDue now).2)

-- The latest event on record, when nothing was reported after it.
def Unreported (log : List DebounceTaken) (since : Nat) : Prop :=
  ∃ before e after, log = before ++ e :: after ∧ e.input = .sawEvent since ∧
    ∀ y ∈ after, y.output = some false

section Step

variable {d : Debounce} {log : List DebounceTaken} {since now : Nat}

-- A report clears what is pending, and an answer in the negative leaves all as it is.
theorem isDue_cases (d : Debounce) (now : Nat) :
    (∃ since, d.pending = some since ∧ d.window ≤ now - since ∧
      d.isDue now = (true, { d with pending := none })) ∨
    ((∀ since, d.pending = some since → ¬d.window ≤ now - since) ∧ d.isDue now = (false, d)) := by
  unfold isDue
  cases d.pending with
  | none => exact .inr ⟨fun _ h => (nomatch h), rfl⟩
  | some since =>
      by_cases hold : d.window ≤ now - since
      · exact .inl ⟨since, rfl, hold, if_pos hold⟩
      · refine .inr ⟨?_, if_neg hold⟩
        rintro _ ⟨⟩
        exact hold

theorem unreported_nil : ¬Unreported [] since := by
  rintro ⟨before, e, after, h, -⟩
  cases before <;> cases h

theorem unreported_event {x : DebounceTaken} (hx : x.input = .sawEvent now) (hout : x.output = none) :
    Unreported (log ++ [x]) since ↔ now = since := by
  constructor
  · rintro ⟨before, e, after, hsplit, he, hafter⟩
    rcases List.eq_nil_or_concat after with rfl | ⟨rest, y, rfl⟩
    · obtain ⟨-, hsame⟩ := List.append_singleton_inj.mp hsplit
      rw [hsame, he] at hx
      exact (DebounceCall.sawEvent.inj hx).symm
    · rw [List.concat_eq_append, ← List.cons_append, ← List.append_assoc] at hsplit
      obtain ⟨-, rfl⟩ := List.append_singleton_inj.mp hsplit
      have hfalse := hafter x (by simp)
      rw [hout] at hfalse
      cases hfalse
  · rintro rfl
    exact ⟨log, x, [], rfl, hx, fun y hy => absurd hy List.not_mem_nil⟩

theorem unreported_answer {x : DebounceTaken} (hx : x.input = .isDue now) :
    Unreported (log ++ [x]) since ↔ Unreported log since ∧ x.output = some false := by
  constructor
  · rintro ⟨before, e, after, hsplit, he, hafter⟩
    rcases List.eq_nil_or_concat after with rfl | ⟨rest, y, rfl⟩
    · obtain ⟨-, hsame⟩ := List.append_singleton_inj.mp hsplit
      rw [hsame, he] at hx
      cases hx
    · rw [List.concat_eq_append] at hsplit hafter
      rw [← List.cons_append, ← List.append_assoc] at hsplit
      obtain ⟨rfl, rfl⟩ := List.append_singleton_inj.mp hsplit
      exact ⟨⟨before, e, rest, rfl, he, fun y hy => hafter y (List.mem_append_left _ hy)⟩,
        hafter x (List.mem_append_right _ (List.mem_singleton_self x))⟩
  · rintro ⟨⟨before, e, after, rfl, he, hafter⟩, hout⟩
    refine ⟨before, e, after ++ [x], by rw [List.append_assoc, List.cons_append], he, fun y hy => ?_⟩
    rcases List.mem_append.mp hy with hy | hy
    · exact hafter y hy
    · rwa [List.mem_singleton.mp hy]

-- What is pending is the latest event on record, if it was not reported.
structure Tracks (window : Nat) (log : List DebounceTaken) (d : Debounce) : Prop where
  window : d.window = window
  pending : ∀ since, d.pending = some since ↔ Unreported log since

theorem tracks_new (window : Nat) : Tracks window [] (new window) :=
  ⟨rfl, fun _ => iff_of_false (fun h => (nomatch h)) unreported_nil⟩

theorem Tracks.step {window : Nat} (h : Tracks window log d) (call : DebounceCall) :
    Tracks window (log ++ [taken Debounce.step d call]) (d.step call).2 := by
  cases call with
  | sawEvent now =>
      refine ⟨h.window, fun since => ?_⟩
      rw [@unreported_event log since now (taken Debounce.step d (.sawEvent now)) rfl rfl]
      exact Option.some_inj
  | isDue now =>
      have hanswer := fun since => @unreported_answer log since now (taken Debounce.step d (.isDue now)) rfl
      rcases isDue_cases d now with ⟨since, hpending, hold, hdue⟩ | ⟨hyoung, hdue⟩
      · refine ⟨?_, fun since' => ?_⟩
        · rw [Debounce.step, hdue]
          exact h.window
        · rw [hanswer]
          simp only [taken, Debounce.step, hdue]
          refine iff_of_false ?_ ?_
          · rintro ⟨⟩
          · rintro ⟨-, ⟨⟩⟩
      · refine ⟨?_, fun since' => ?_⟩
        · rw [Debounce.step, hdue]
          exact h.window
        · rw [hanswer]
          simp only [taken, Debounce.step, hdue, and_true]
          exact h.pending since'

end Step

section Runs

variable {d : Debounce} {window since now : Nat} {calls : List DebounceCall}
  {pre post : List DebounceTaken} {x : DebounceTaken}

theorem tracks_final (window : Nat) (calls : List DebounceCall) :
    Tracks window (trace Debounce.step calls (new window)) (final Debounce.step calls (new window)) :=
  trace_induct (tracks_new window) (fun _ _ call h => h.step call) calls

theorem output_of_event {s : Debounce} (hx : x ∈ trace Debounce.step calls s)
    (hevent : x.input = .sawEvent now) : x.output = none := by
  obtain ⟨before, call, after, -, rfl⟩ := exists_of_mem_trace hx
  obtain rfl : call = .sawEvent now := hevent
  rfl

-- The calls on record are in order of time.
theorem pairwise_trace {s : Debounce} (htimes : calls.Pairwise fun c c' => c.now ≤ c'.now) :
    (trace Debounce.step calls s).Pairwise fun y z => y.input.now ≤ z.input.now := by
  rwa [← @map_input_trace _ _ _ Debounce.step calls s, List.pairwise_map] at htimes

theorem before_of_pairwise (htimes : calls.Pairwise fun c c' => c.now ≤ c'.now)
    (h : trace Debounce.step calls (new window) = pre ++ x :: post) {y : DebounceTaken} (hy : y ∈ pre) :
    y.input.now ≤ x.input.now := by
  have hlog := @pairwise_trace calls (new window) htimes
  rw [h] at hlog
  exact (List.pairwise_append.mp hlog).2.2 y hy x List.mem_cons_self

theorem report_iff (htimes : calls.Pairwise fun c c' => c.now ≤ c'.now)
    (h : trace Debounce.step calls (new window) = pre ++ x :: post) (hx : x.input = .isDue now) :
    x.output = some true ↔ ∃ since, Unreported pre since ∧ since + window ≤ now := by
  have hpast : ∀ since, Unreported pre since → since ≤ now := by
    rintro since ⟨before, e, after, hpre, he, -⟩
    have hbefore := before_of_pairwise htimes h (hpre ▸ List.mem_append_right _ List.mem_cons_self)
    rwa [he, hx] at hbefore
  obtain ⟨before, call, after, -, rfl, rfl, -⟩ := trace_eq_append_cons h
  obtain rfl : call = .isDue now := hx
  obtain ⟨hwindow, hpending⟩ := tracks_final window before
  simp only [taken, Debounce.step, Option.some.injEq, ← hpending] at hpast ⊢
  rcases isDue_cases (final Debounce.step before (new window)) now with
    ⟨since, hsince, hold, hdue⟩ | ⟨hyoung, hdue⟩
  · have := hpast since hsince
    rw [hdue]
    exact iff_of_true rfl ⟨since, hsince, by omega⟩
  · rw [hdue]
    refine iff_of_false Bool.false_ne_true ?_
    rintro ⟨since, hsince, hold⟩
    exact hyoung since hsince (by omega)

-- No event comes in during these calls.
def Quiet (log : List DebounceTaken) : Prop := ∀ y ∈ log, ∀ now, y.input ≠ .sawEvent now

theorem exists_of_quiet_cons {call : DebounceCall} (h : Quiet (trace Debounce.step (call :: calls) d)) :
    ∃ now, call = .isDue now ∧ Quiet (trace Debounce.step calls (d.step call).2) := by
  have hrest : Quiet (trace Debounce.step calls (d.step call).2) := fun y hy =>
    h y (List.mem_cons_of_mem _ hy)
  cases call with
  | sawEvent now => exact absurd rfl (h _ List.mem_cons_self now)
  | isDue now => exact ⟨now, rfl, hrest⟩

-- With nothing pending, nothing is reported before the next event.
theorem countP_quiet_none (hquiet : Quiet (trace Debounce.step calls d)) (hnone : d.pending = none) :
    (trace Debounce.step calls d).countP (fun y => y.output = some true) = 0 := by
  induction calls with
  | nil => rfl
  | cons call calls ih =>
      obtain ⟨now, rfl, hrest⟩ := exists_of_quiet_cons hquiet
      rcases isDue_cases d now with ⟨since, hsince, -, -⟩ | ⟨-, hdue⟩
      · rw [hnone] at hsince
        cases hsince
      · rw [Debounce.step, hdue] at hrest
        rw [trace, List.countP_cons]
        simp only [taken, Debounce.step, hdue, ih hrest]
        rfl

-- What is pending is reported once, if it is asked for when it is old enough.
theorem countP_quiet_some (hquiet : Quiet (trace Debounce.step calls d)) (hsome : d.pending = some since) :
    (trace Debounce.step calls d).countP (fun y => y.output = some true) =
      if ∃ y ∈ trace Debounce.step calls d, d.window ≤ y.input.now - since then 1 else 0 := by
  induction calls with
  | nil => rfl
  | cons call calls ih =>
      obtain ⟨now, rfl, hrest⟩ := exists_of_quiet_cons hquiet
      simp only [trace, List.countP_cons, List.exists_mem_cons_iff]
      rcases isDue_cases d now with ⟨since', hsince, hold, hdue⟩ | ⟨hyoung, hdue⟩
      · obtain rfl : since = since' := Option.some.inj (hsome.symm.trans hsince)
        have hasked : d.window ≤ (taken Debounce.step d (.isDue now)).input.now - since := hold
        rw [Debounce.step, hdue] at hrest
        rw [if_pos (Or.inl hasked)]
        simp only [taken, Debounce.step, hdue, countP_quiet_none hrest rfl]
        rfl
      · have hnot : ¬d.window ≤ (taken Debounce.step d (.isDue now)).input.now - since := hyoung since hsome
        rw [Debounce.step, hdue] at hrest
        simp only [hnot, false_or]
        simp only [taken, Debounce.step, hdue, ih hrest]
        rfl

theorem cleared_of_report {s : Debounce} {call : DebounceCall} (h : (s.step call).1 = some true) :
    (∀ now, call ≠ .sawEvent now) ∧ (s.step call).2.pending = none := by
  cases call with
  | sawEvent now => cases h
  | isDue now =>
      refine ⟨fun _ hcall => (nomatch hcall), ?_⟩
      rcases isDue_cases s now with ⟨since, -, -, hdue⟩ | ⟨-, hdue⟩
      · rw [Debounce.step, hdue]
      · rw [Debounce.step, hdue] at h
        cases h

theorem event_between {s : Debounce} {mid : List DebounceTaken} {y : DebounceTaken}
    (h : trace Debounce.step calls s = pre ++ x :: (mid ++ y :: post)) (hx : x.output = some true)
    (hy : y.output = some true) : ∃ z ∈ mid, ∃ now, z.input = .sawEvent now := by
  by_contra hnone
  obtain ⟨before, call, rest, -, -, rfl, hrest⟩ := trace_eq_append_cons h
  obtain ⟨quiet, call', after, rfl, rfl, rfl, -⟩ := trace_eq_append_cons hrest.symm
  obtain ⟨-, hcleared⟩ := cleared_of_report hx
  obtain ⟨hanswer, -⟩ := cleared_of_report hy
  have hquiet : Quiet (trace Debounce.step (quiet ++ [call'])
      (taken Debounce.step (final Debounce.step before s) call).after) := by
    intro z hz now hinput
    rw [trace_append] at hz
    rcases List.mem_append.mp hz with hz | hz
    · exact hnone ⟨z, hz, now, hinput⟩
    · obtain rfl := List.mem_singleton.mp hz
      exact hanswer now hinput
  have hall := List.countP_eq_zero.mp (countP_quiet_none hquiet hcleared)
  exact hall _ (taken_mem_trace quiet call' [] _) (decide_eq_true hy)

-- Every event that came before a report was old enough by then, not only the latest.
theorem events_old (htimes : calls.Pairwise fun c c' => c.now ≤ c'.now)
    (h : trace Debounce.step calls (new window) = pre ++ x :: post) (hpre : Unreported pre since)
    {e : DebounceTaken} (he : e ∈ pre) (hevent : e.input = .sawEvent now) : now ≤ since := by
  obtain ⟨before, latest, after, rfl, hlatest, hafter⟩ := hpre
  rcases List.mem_append.mp he with hmem | hmem
  · have hbefore := @before_of_pairwise window calls before (after ++ x :: post) latest htimes
      (by rw [h, List.append_assoc, List.cons_append]) e hmem
    rwa [hevent, hlatest] at hbefore
  · rcases List.mem_cons.mp hmem with rfl | hmem
    · rw [hevent] at hlatest
      exact (DebounceCall.sawEvent.inj hlatest).le
    · have hlog : e ∈ trace Debounce.step calls (new window) := h ▸ List.mem_append_left _ he
      have hanswer := hafter e hmem
      rw [output_of_event hlog hevent] at hanswer
      cases hanswer

end Runs

-- Of calls in order of time, one is told to report exactly if there was an event that was not, and the
-- latest of them is as old as the window; so there is an event between two reports, none is younger
-- than the window at a report, and a burst with no event after it is reported once, if it is asked for.
theorem reports_each_burst_once (window : Nat) (calls : List DebounceCall)
    (htimes : calls.Pairwise fun c c' => c.now ≤ c'.now) :
    let log := trace Debounce.step calls (new window)
    (∀ pre x post now, log = pre ++ x :: post → x.input = .isDue now →
      (x.output = some true ↔ ∃ since, Unreported pre since ∧ since + window ≤ now) ∧
      (x.output = some true → ∀ e ∈ pre, ∀ since, e.input = .sawEvent since → since + window ≤ now)) ∧
    (∀ pre x mid y post, log = pre ++ x :: (mid ++ y :: post) → x.output = some true →
      y.output = some true → ∃ z ∈ mid, ∃ now, z.input = .sawEvent now) ∧
    ∀ pre e post since, log = pre ++ e :: post → e.input = .sawEvent since →
      Quiet post → post.countP (fun y => y.output = some true) =
        if ∃ y ∈ post, since + window ≤ y.input.now then 1 else 0 := by
  refine ⟨fun pre x post now h hx => ?_, fun pre x mid y post h hx hy => event_between h hx hy, ?_⟩
  · have hiff := report_iff htimes h hx
    refine ⟨hiff, fun hreport e he since hevent => ?_⟩
    obtain ⟨latest, hlatest, hold⟩ := hiff.mp hreport
    have := events_old htimes h hlatest he hevent
    omega
  · intro pre e post since h he hquiet
    have hlater : ∀ y ∈ post, since ≤ y.input.now := by
      intro y hy
      have hlog := @pairwise_trace calls (new window) htimes
      rw [h] at hlog
      have hpost := (List.pairwise_cons.mp (List.pairwise_append.mp hlog).2.1).1 y hy
      rwa [he] at hpost
    obtain ⟨before, call, after, -, rfl, rfl, rfl⟩ := trace_eq_append_cons h
    obtain rfl : call = .sawEvent since := he
    have hwindow := (tracks_final window before).window
    rw [countP_quiet_some hquiet rfl]
    refine if_congr (exists_congr fun y => and_congr_right fun hy => ?_) rfl rfl
    have := hlater y hy
    change (final Debounce.step before (new window)).window ≤ y.input.now - since ↔ _
    omega

-- An editor writes twice, and the thread goes on asking.
def saving : List DebounceCall :=
  [.sawEvent 0, .isDue 1, .sawEvent 10, .isDue 11, .isDue 410, .isDue 10000]

theorem saving_reported_once : (trace Debounce.step [.isDue 11, .isDue 410, .isDue 10000]
    ((new 400).sawEvent 10)).countP (fun y => y.output = some true) = 1 := by
  have htimes : saving.Pairwise fun c c' => c.now ≤ c'.now := by decide
  have hquiet : Quiet (trace Debounce.step [.isDue 11, .isDue 410, .isDue 10000]
      ((new 400).sawEvent 10)) := by
    simp [Quiet, trace, taken]
  obtain ⟨-, -, honce⟩ := reports_each_burst_once 400 saving htimes
  have hreports := honce (trace Debounce.step [.sawEvent 0, .isDue 1] (new 400))
    (taken Debounce.step ((new 400).sawEvent 0) (.sawEvent 10)) _ 10 rfl rfl hquiet
  rw [if_pos (by decide)] at hreports
  exact hreports

-- Every report takes an event, and what is still pending has not been taken.
theorem countP_reports_le (d : Debounce) (calls : List DebounceCall) :
    (trace Debounce.step calls d).countP (fun y => y.output = some true) ≤
      calls.countP DebounceCall.isEvent + d.pending.toList.length := by
  induction calls generalizing d with
  | nil => exact Nat.zero_le _
  | cons call calls ih =>
      rw [trace, List.countP_cons, List.countP_cons]
      cases call with
      | sawEvent now =>
          have hrest : _ ≤ _ + 1 := ih (d.sawEvent now)
          simp only [taken, Debounce.step, DebounceCall.isEvent, reduceCtorEq, decide_false,
            Bool.false_eq_true, if_false, if_true]
          omega
      | isDue now =>
          rcases isDue_cases d now with ⟨since, hsince, -, hdue⟩ | ⟨-, hdue⟩
          · have hrest : _ ≤ _ + 0 := ih { d with pending := none }
            simp only [taken, Debounce.step, hdue, hsince, DebounceCall.isEvent, decide_true,
              Bool.false_eq_true, if_false, if_true, Option.toList_some, List.length_singleton]
            omega
          · have hrest := ih d
            simp only [taken, Debounce.step, hdue, DebounceCall.isEvent, Option.some.injEq, decide_false,
              Bool.false_eq_true, if_false]
            omega

end Debounce

-- What happens to a watcher: an event is put into its channel, its thread does one of the halves of a
-- round, or what it sent is taken.
inductive WatcherMove where
  | notify (event : RawEvent)
  | receive (now : Nat)
  | report (now : Nat) (exists? : Bool)
  | nextEvent

namespace SaveWatcher

def move (w : SaveWatcher) : WatcherMove → SaveWatcher
  | .notify event => w.notify event
  | .receive now => w.receive now
  | .report now exists? => w.report now exists?
  | .nextEvent => w.nextEvent.2

-- What the thread asks of its debouncer.
def asks (w : SaveWatcher) : WatcherMove → Option DebounceCall
  | .receive now => match w.raw with
    | [] => none
    | e :: _ => if e.touches w.target then some (.sawEvent now) else none
  | .report now _ => some (.isDue now)
  | .notify _ | .nextEvent => none

-- What it sends.
def sends (w : SaveWatcher) : WatcherMove → Option SaveEvent
  | .report now exists? =>
      if (w.debounce.isDue now).1 then some (if exists? then .saved else .vanished) else none
  | .notify _ | .receive _ | .nextEvent => none

def step (w : SaveWatcher) (m : WatcherMove) : (Option DebounceCall × Option SaveEvent) × SaveWatcher :=
  ((w.asks m, w.sends m), w.move m)

section Thread

theorem out_report (w : SaveWatcher) (now : Nat) (exists? : Bool) :
    (w.report now exists?).out = w.out ++ (w.sends (.report now exists?)).toList := by
  unfold report sends
  dsimp only
  cases (w.debounce.isDue now).1 with
  | false => exact (List.append_nil _).symm
  | true => rfl

-- The debouncer is where the calls that were made of it have led.
theorem debounce_move (w : SaveWatcher) (m : WatcherMove) :
    (w.move m).debounce = (w.asks m).elim w.debounce fun call => (w.debounce.step call).2 := by
  cases m with
  | notify event => rfl
  | nextEvent =>
      unfold move nextEvent
      cases w.out <;> rfl
  | receive now =>
      unfold move receive asks
      cases w.raw with
      | nil => rfl
      | cons e raw =>
          dsimp only
          split_ifs <;> rfl
  | report now exists? =>
      unfold move report asks
      dsimp only
      split_ifs <;> rfl

-- A save is sent where the debouncer says that one is due.
theorem isSome_sends (w : SaveWatcher) (m : WatcherMove) :
    (w.sends m).isSome = (w.asks m).any fun call => (w.debounce.step call).1 = some true := by
  cases m with
  | notify | nextEvent => rfl
  | receive now =>
      unfold sends asks
      cases w.raw with
      | nil => rfl
      | cons e raw =>
          dsimp only
          split_ifs <;> rfl
  | report now exists? =>
      unfold sends asks
      simp only [Option.any_some, Debounce.step, Option.some.injEq]
      cases (w.debounce.isDue now).1 <;> rfl

-- The calls that are made of the debouncer in these moves.
def asked (log : List (Taken SaveWatcher WatcherMove (Option DebounceCall × Option SaveEvent))) :
    List DebounceCall :=
  log.filterMap fun x => x.output.1

theorem asked_cons (x : Taken SaveWatcher WatcherMove (Option DebounceCall × Option SaveEvent))
    (log : List (Taken SaveWatcher WatcherMove (Option DebounceCall × Option SaveEvent))) :
    asked (x :: log) = x.output.1.toList ++ asked log := by
  rw [asked, List.filterMap_cons]
  cases x.output.1 <;> rfl

-- So the thread's run is a run of its debouncer, with a save for every report.
theorem saves_eq_reports (w : SaveWatcher) (moves : List WatcherMove) :
    (trace SaveWatcher.step moves w).countP (fun x => x.output.2.isSome) =
      (trace Debounce.step (asked (trace SaveWatcher.step moves w)) w.debounce).countP
        fun y => y.output = some true := by
  induction moves generalizing w with
  | nil => rfl
  | cons m moves ih =>
      have hsends := isSome_sends w m
      have hrest := ih (w.move m)
      rw [debounce_move] at hrest
      rw [trace, List.countP_cons, asked_cons]
      simp only [taken, SaveWatcher.step, hsends]
      cases hasks : w.asks m with
      | none =>
          rw [hasks] at hrest
          exact hrest
      | some call =>
          rw [hasks] at hrest
          rw [Option.toList_some, List.singleton_append, trace, List.countP_cons]
          exact congrArg (· + _) hrest

-- No more saves are sent than events about the file have come in.
theorem saves_le_events (target : Path) (moves : List WatcherMove) :
    (trace SaveWatcher.step moves (.watch target)).countP (fun x => x.output.2.isSome) ≤
      (asked (trace SaveWatcher.step moves (.watch target))).countP DebounceCall.isEvent := by
  rw [saves_eq_reports]
  exact Debounce.countP_reports_le ..

end Thread

end SaveWatcher

end Zbacs.Agent
