import BackupHistory.Calendar

namespace BackupHistory

/-!
# Instants

An instant is a second counted from the start of 1970 and a part of that second
in nanoseconds. A leap second has no number of its own: it lengthens the last
second of a minute, whose part then goes past a thousand million.
-/

def Instant.second : Nat :=
  1000000000

def Instant.daySeconds : Int :=
  86400

/-- The first day that an instant may fall on. -/
def Instant.firstDay : Int :=
  Date.toDayNumber ⟨-262143, 1, 1⟩

/-- The last day that an instant may fall on. -/
def Instant.lastDay : Int :=
  Date.toDayNumber ⟨262142, 12, 31⟩

/-- A moment in universal time, to the nanosecond. -/
structure Instant where
  seconds : Int
  nanos : Nat
  inRange :
    Instant.firstDay ≤ seconds / Instant.daySeconds ∧
      seconds / Instant.daySeconds ≤ Instant.lastDay
  subsecond :
    nanos < Instant.second ∨
      nanos < 2 * Instant.second ∧ seconds % 60 = 59
  deriving Repr, DecidableEq

namespace Instant

/-- Earlier instants come first; a leap second follows the second it lengthens. -/
def order (left right : Instant) : Ordering :=
  (compare left.seconds right.seconds).then
    (compare left.nanos right.nanos)

instance : Ord Instant :=
  ⟨order⟩

/-- A moment as a calendar and a clock show it. -/
structure Reading where
  dayNumber : Int
  hour : Nat
  minute : Nat
  /-- Sixty in a leap second that a clock on whole minutes shows. -/
  second : Nat
  nanos : Nat
  deriving Repr, DecidableEq

/-- What a clock shows that is ahead of universal time by the given seconds. -/
def reading (offset : Int) (instant : Instant) : Reading :=
  let seconds := instant.seconds + offset
  let ofDay := (seconds % daySeconds).toNat
  { dayNumber := seconds / daySeconds
    hour := ofDay / 3600
    minute := ofDay / 60 % 60
    second := ofDay % 60 + instant.nanos / Instant.second
    nanos := instant.nanos % Instant.second }

/--
The nanoseconds from one instant to another.

A leap second of the earlier clock time counts as soon as the later one is past
it, which is judged by the time of day alone.
-/
def nanosSince (later earlier : Instant) : Int :=
  let laterOfDay := later.seconds % daySeconds
  let earlierOfDay := earlier.seconds % daySeconds
  let leap : Int :=
    if earlierOfDay < laterOfDay ∧ second ≤ earlier.nanos then
      1
    else if laterOfDay < earlierOfDay ∧ second ≤ later.nanos then
      -1
    else
      0
  (later.seconds - earlier.seconds + leap) * second +
    (later.nanos - earlier.nanos)

/-- The whole milliseconds from one instant to another, none if it is earlier. -/
def millisSince (later earlier : Instant) : Nat :=
  (later.nanosSince earlier).toNat / 1000000

end Instant

end BackupHistory
