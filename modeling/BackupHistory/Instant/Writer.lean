import BackupHistory.Instant.Basic
import BackupHistory.Numeral

namespace BackupHistory

/-!
# Writing dates and instants

Years outside zero to 9999 carry a sign, so that their first digit is not taken
for the first of four. The part of a second is written to milliseconds,
microseconds or nanoseconds, whichever is the first to be exact, and not at all
if there is none.
-/

/-- A number with zeros before it up to the given width. -/
def paddedText (width number : Nat) : List Char :=
  let digits := decimalText number
  List.replicate (width - digits.length) '0' ++ digits

namespace Date

/-- A year in at least four digits. -/
def yearText (year : Int) : List Char :=
  if year < 0 then
    '-' :: paddedText 4 year.natAbs
  else if 9999 < year then
    '+' :: paddedText 4 year.natAbs
  else
    paddedText 4 year.natAbs

/-- Year, month and day with hyphens between them. -/
def toText (date : Date) : List Char :=
  yearText date.year ++ '-' :: paddedText 2 date.month ++
    '-' :: paddedText 2 date.day

end Date

namespace Instant.Reading

/-- Hour, minute and second with colons between them. -/
def clockText (reading : Reading) : List Char :=
  paddedText 2 reading.hour ++ ':' :: paddedText 2 reading.minute ++
    ':' :: paddedText 2 reading.second

def dateText (reading : Reading) : List Char :=
  (Date.ofDayNumber reading.dayNumber).toText

end Instant.Reading

namespace Instant

/-- The part of a second, in three, six or nine digits or not at all. -/
def subsecondText (nanos : Nat) : List Char :=
  if nanos = 0 then
    []
  else if nanos % 1000000 = 0 then
    '.' :: paddedText 3 (nanos / 1000000)
  else if nanos % 1000 = 0 then
    '.' :: paddedText 6 (nanos / 1000)
  else
    '.' :: paddedText 9 nanos

/-- An instant in universal time, date and clock joined by `T`. -/
def toText (instant : Instant) : List Char :=
  let reading := instant.reading 0
  reading.dateText ++ 'T' :: reading.clockText ++
    subsecondText reading.nanos ++ ['Z']

/-- The day of an instant by a clock ahead of universal time. -/
def dayText (offset : Int) (instant : Instant) : String :=
  String.ofList (instant.reading offset).dateText

/-- The day of an instant, with its weekday before it. -/
def weekdayText (offset : Int) (instant : Instant) : String :=
  Date.weekdayName (instant.reading offset).dayNumber ++ " " ++
    instant.dayText offset

/-- The day and the time of an instant by a clock ahead of universal time. -/
def timeText (offset : Int) (instant : Instant) : String :=
  let reading := instant.reading offset
  String.ofList (reading.dateText ++ ' ' :: reading.clockText)

end Instant

end BackupHistory
