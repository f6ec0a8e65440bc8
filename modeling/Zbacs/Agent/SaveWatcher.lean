import Zbacs.Agent.RunSession

namespace Zbacs.Agent

open Zbacs.Lib

-- The watcher's thread: what the operating system reports comes in, saves go out. Times are counted in
-- one unit, which is the millisecond where a constant says how long.

def defaultDebounce : Nat := 400

-- Collapses a burst of filesystem events into one save.
structure Debounce where
  window : Nat
  pending : Option Nat

namespace Debounce

def new (window : Nat) : Debounce := ⟨window, none⟩

def sawEvent (d : Debounce) (now : Nat) : Debounce := { d with pending := some now }

-- Whether the quiet period is over; true once for a burst.
def isDue (d : Debounce) (now : Nat) : Bool × Debounce := match d.pending with
  | some since => if d.window ≤ now - since then (true, { d with pending := none }) else (false, d)
  | none => (false, d)

end Debounce

-- What arrives in the thread's channel: an event, or that one was dropped.
inductive RawEvent where
  | event (access : Bool) (paths : List Path)
  | dropped
deriving DecidableEq

def RawEvent.touches (target : Path) : RawEvent → Bool
  | .event access paths => !access && paths.any (· = target)
  | .dropped => false

-- The watcher with both of its channels.
structure SaveWatcher where
  target : Path
  raw : List RawEvent
  debounce : Debounce
  out : List SaveEvent

namespace SaveWatcher

def watch (target : Path) : SaveWatcher := ⟨target, [], .new defaultDebounce, []⟩

def notify (w : SaveWatcher) (e : RawEvent) : SaveWatcher := { w with raw := w.raw ++ [e] }

-- The first half of a round of the thread: one event, or a timeout when there is none.
def receive (w : SaveWatcher) (now : Nat) : SaveWatcher := match w.raw with
  | [] => w
  | e :: raw =>
    { w with raw := raw, debounce := if e.touches w.target then w.debounce.sawEvent now else w.debounce }

-- The second half: a burst that is over is a save, if the file is still there.
def report (w : SaveWatcher) (now : Nat) (exists? : Bool) : SaveWatcher :=
  let (due, debounce) := w.debounce.isDue now
  let w := { w with debounce := debounce }
  if due then { w with out := w.out ++ [if exists? then .saved else .vanished] } else w

-- `next_event`: what has been reported first, or nothing in time.
def nextEvent (w : SaveWatcher) : Option SaveEvent × SaveWatcher := match w.out with
  | [] => (none, w)
  | e :: out => (some e, { w with out := out })

end SaveWatcher

end Zbacs.Agent
