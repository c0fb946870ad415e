import BackupHistory.Instant.Basic
import BackupHistory.Numeral
import BackupHistory.Text.Blank
import BackupHistory.Text.Scan

namespace BackupHistory.Instant

open Text (Scan leadingDigits scanDigits)

/-!
# Reading instants

An instant is read from a date, a clock time and an offset from universal time,
`2024-05-01T12:30:00.25+02:00`. The form is read with some freedom: blanks may
stand before each number and separator, numbers may be shorter than usual, and
a year with a sign may be longer. Digits after the ninth of a fraction are
dropped. Second 60 is the leap second after second 59.
-/

/-- Read a number of at most the given count of digits, blanks before it. -/
def scanNumber (count : Nat) : Scan Nat := fun text =>
  (scanDigits count (Text.dropBlanks text)).map fun (digits, rest) =>
    (Digit.appendTo 0 digits, rest)

def scanSeparator (separator : Char) (text : List Char) :
    Option (List Char) :=
  match Text.dropBlanks text with
  | first :: rest => if first = separator then some rest else none
  | [] => none

/-- Read a year: up to four digits, or a sign and any count of digits. -/
def scanYear : Scan Int := fun text =>
  match Text.dropBlanks text with
  | '-' :: rest =>
      (scanDigits rest.length rest).map fun (digits, after) =>
        (-(Digit.appendTo 0 digits : Int), after)
  | '+' :: rest =>
      (scanDigits rest.length rest).map fun (digits, after) =>
        ((Digit.appendTo 0 digits : Int), after)
  | other =>
      (scanDigits 4 other).map fun (digits, after) =>
        ((Digit.appendTo 0 digits : Int), after)

def scanDate : Scan Date := fun text => do
  let (year, text) ← scanYear text
  let text ← scanSeparator '-' text
  let (month, text) ← scanNumber 2 text
  let text ← scanSeparator '-' text
  let (day, text) ← scanNumber 2 text
  some (⟨year, month, day⟩, text)

/-- The nanoseconds of a fraction; nine digits count. -/
def fractionNanos (digits : List Digit) : Nat :=
  let counted := digits.take 9
  Digit.appendTo 0 counted * Nat.pow 10 (9 - counted.length)

/-- Read the fraction of a second, if a point announces one. -/
def scanFraction : Scan Nat := fun text =>
  match text with
  | '.' :: rest =>
      (scanDigits rest.length rest).map fun (digits, after) =>
        (fractionNanos digits, after)
  | other => some (0, other)

/-- The time of day in seconds and a part of a second in nanoseconds. -/
structure TimeOfDay where
  seconds : Nat
  nanos : Nat
  deriving Repr, DecidableEq

/-- Read hour, minute, second and fraction, each in its range. -/
def scanTime : Scan TimeOfDay := fun text => do
  let (hour, text) ← scanNumber 2 text
  let text ← scanSeparator ':' text
  let (minute, text) ← scanNumber 2 text
  let text ← scanSeparator ':' text
  let (second, text) ← scanNumber 2 text
  let (nanos, text) ← scanFraction text
  if hour < 24 ∧ minute < 60 ∧ second ≤ 60 then
    let minutes := 60 * hour + minute
    if second = 60 then
      some (⟨60 * minutes + 59, Instant.second + nanos⟩, text)
    else
      some (⟨60 * minutes + second, nanos⟩, text)
  else
    none

/-- Read the hours and minutes of an offset, colons and blanks between them. -/
def scanOffsetMinutes : Scan Nat := fun text =>
  match leadingDigits 2 text with
  | ([tens, units], text) =>
      let text := text.dropWhile fun character =>
        character == ':' || Text.isBlank character
      match leadingDigits 2 text with
      | ([minuteTens, minuteUnits], text) =>
          let minutes := Digit.appendTo 0 [minuteTens, minuteUnits]
          if minutes < 60 then
            some (60 * Digit.appendTo 0 [tens, units] + minutes, text)
          else
            none
      | _ => none
  | _ => none

/-- The letters of the name of universal time, in any case. -/
def isUniversalName (first second third : Char) : Bool :=
  first.toUpper == 'U' && second.toUpper == 'T' && third.toUpper == 'C'

def scanSignedOffset : Scan Int := fun text =>
  match text with
  | '+' :: rest =>
      (scanOffsetMinutes rest).map fun (minutes, after) =>
        ((60 * minutes : Int), after)
  | '-' :: rest
  | '\u2212' :: rest =>
      (scanOffsetMinutes rest).map fun (minutes, after) =>
        (-(60 * minutes : Int), after)
  | _ => none

/-- Read an offset from universal time in seconds. -/
def scanOffset : Scan Int := fun text =>
  match text with
  | 'Z' :: rest
  | 'z' :: rest => some (0, rest)
  | first :: second :: third :: rest =>
      if isUniversalName first second third then
        some (0, rest)
      else
        scanSignedOffset text
  | _ => none

/-- The instant of a clock time by a clock ahead of universal time. -/
def ofClock?
    (date : Date)
    (time : TimeOfDay)
    (offset : Int) :
    Option Instant :=
  let day := date.toDayNumber
  let seconds := day * daySeconds + time.seconds - offset
  if valid :
      date.IsValid ∧
      (firstDay ≤ day ∧ day ≤ lastDay) ∧
      (offset < daySeconds ∧ -daySeconds < offset) ∧
      (firstDay ≤ seconds / daySeconds ∧
        seconds / daySeconds ≤ lastDay) ∧
      (time.nanos < second ∨
        time.nanos < 2 * second ∧ seconds % 60 = 59) then
    some ⟨seconds, time.nanos, valid.2.2.2.1, valid.2.2.2.2⟩
  else
    none

def read? (text : List Char) : Option Instant := do
  let (date, text) ← scanDate text
  let text ←
    match text with
    | 'T' :: rest
    | 't' :: rest
    | ' ' :: rest => some rest
    | _ => none
  let (time, text) ← scanTime text
  let (offset, text) ← scanOffset (Text.dropBlanks text)
  if Text.isAllBlank text then
    ofClock? date time offset
  else
    none

end BackupHistory.Instant
