import EventStream.Channel.Gate
import EventStream.Config.Duration

namespace EventStream

/-- Windows close once a period, the first time a period after the start. -/
structure Schedule where
  period : Nat
  /-- When the open window is to close. -/
  due : Instant

namespace Schedule

def start (period : Duration) (now : Instant) : Schedule :=
  ⟨period.nanos, now + period.nanos⟩

/-- The clock counts seconds in 63 bits, and shows at least one when a schedule starts. -/
def clockEnd : Instant := 9223372036854775807 * Duration.second

/-- No schedule has its first window close past the end of the clock. -/
def start? (period : Duration) (now : Instant) : Option Schedule :=
  if (start period now).due < clockEnd then some (start period now) else none

/-- Timers go off at whole milliseconds. -/
def wakes (s : Schedule) : Instant :=
  (s.due + (Gate.millisecond - 1)) / Gate.millisecond * Gate.millisecond

/-- Being late by no more than this moves no later window. -/
def slack : Nat := 5 * Gate.millisecond

/-- A window that follows another closes no later than thirty years of 365 days after it. -/
def longestWait : Nat := 30 * 365 * 86400 * Duration.second

/-- The time from one window to the next. -/
def stride (s : Schedule) : Nat :=
  min s.period longestWait

/-- After the window has closed: one that closed late puts off the later ones. -/
def advance (s : Schedule) (now : Instant) : Schedule :=
  let next := if s.due + slack < now then now + s.period else s.due + s.period
  { s with due := min next (now + longestWait) }

/-- The time at which the window closes for one who waits from now on, and the schedule after it. -/
def tick (s : Schedule) (now : Instant) : Instant × Schedule :=
  let time := max now s.wakes
  (time, s.advance time)

end Schedule

end EventStream
