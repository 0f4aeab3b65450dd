import CompileWatch.Path.Table

/-!
# Poll timers

Every tracked file has one timer, which comes due one interval after it was
armed. Taking the timers that are due removes them, so a file has no timer while
it is being checked, until it is armed again.
-/

namespace CompileWatch

/-- A moment of a session, in milliseconds since its start. No timer is armed and no tick is made
before the start, so moments before it have no number. -/
abbrev Moment := Nat

/-- The moments at which the timers of files come due. -/
structure PollSchedule where
  interval : Nat
  due : Path.Table Moment := .empty

namespace PollSchedule

/-- Starts or restarts the timer of a file. -/
def arm (s : PollSchedule) (path : Path) (now : Moment) : PollSchedule :=
  { s with due := s.due.set path (now + s.interval) }

/-- Makes a timer due at once. A file without timer gets none. -/
def wake (s : PollSchedule) (path : Path) (now : Moment) : PollSchedule :=
  if s.due.contains path then { s with due := s.due.set path now } else s

/-- The files whose timers are due, in path order. -/
def dueAt (s : PollSchedule) (now : Moment) : List Path :=
  (s.due.entries.filter fun e => e.2 ≤ now).map (·.1)

/-- Takes the timers that are due. -/
def takeDue (s : PollSchedule) (now : Moment) : List Path × PollSchedule :=
  (s.dueAt now, { s with due := s.due.filter fun e => !(e.2 ≤ now) })

/-- The earliest moment at which a timer comes due. -/
def nextDue? (s : PollSchedule) : Option Moment := s.due.values.min?

def isArmed (s : PollSchedule) (path : Path) : Bool := s.due.contains path

/-- Removes all timers. -/
def clear (s : PollSchedule) : PollSchedule := { s with due := .empty }

def size (s : PollSchedule) : Nat := s.due.size

def isEmpty (s : PollSchedule) : Bool := s.due.isEmpty

end PollSchedule

end CompileWatch
