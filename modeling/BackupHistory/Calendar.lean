namespace BackupHistory

/-!
# The proleptic Gregorian calendar

Days are numbered from the first of January 1970, negative before it. Years run
through zero in both directions. The year of a day is estimated from the mean
length of a year and then corrected by at most one.
-/

/-- A day of the calendar. -/
structure Date where
  year : Int
  month : Nat
  day : Nat
  deriving Repr, DecidableEq

namespace Date

/-- Whether a year has a twenty-ninth of February. -/
def isLeapYear (year : Int) : Bool :=
  year % 4 == 0 && (year % 100 != 0 || year % 400 == 0)

/-- The lengths of the months of a year, in order. -/
def monthLengths (year : Int) : List Nat :=
  [31, if isLeapYear year then 29 else 28,
    31, 30, 31, 30, 31, 31, 30, 31, 30, 31]

def IsValid (date : Date) : Prop :=
  1 ≤ date.month ∧ date.month ≤ 12 ∧ 1 ≤ date.day ∧
    date.day ≤ (monthLengths date.year).getD (date.month - 1) 0

instance (date : Date) : Decidable date.IsValid :=
  inferInstanceAs (Decidable (_ ∧ _))

/-- The days from the start of year zero to the start of a year. -/
def yearStart (year : Int) : Int :=
  365 * year + (year + 3) / 4 - (year + 99) / 100 + (year + 399) / 400

/-- The days from the start of year zero to the start of 1970. -/
def epochDay : Int :=
  719528

def toDayNumber (date : Date) : Int :=
  let monthStart : Nat :=
    ((monthLengths date.year).take (date.month - 1)).foldl Nat.add 0
  yearStart date.year + monthStart + date.day - 1 - epochDay

/-- The year that a day counted from the start of year zero is in. -/
def yearOf (day : Int) : Int :=
  let estimate := day * 400 / 146097
  if day < yearStart estimate then
    estimate - 1
  else if yearStart (estimate + 1) ≤ day then
    estimate + 1
  else
    estimate

/-- The month and day of a day counted from the start of a month. -/
def monthAndDay (month : Nat) : List Nat → Nat → Nat × Nat
  | [], day => (month, day + 1)
  | length :: rest, day =>
      if day < length then
        (month, day + 1)
      else
        monthAndDay (month + 1) rest (day - length)

def ofDayNumber (number : Int) : Date :=
  let day := number + epochDay
  let year := yearOf day
  let (month, dayOfMonth) :=
    monthAndDay 1 (monthLengths year) (day - yearStart year).toNat
  ⟨year, month, dayOfMonth⟩

/-- The first three letters of the name of a numbered day's weekday. -/
def weekdayName (number : Int) : String :=
  match (number % 7).toNat with
  | 0 => "Thu"
  | 1 => "Fri"
  | 2 => "Sat"
  | 3 => "Sun"
  | 4 => "Mon"
  | 5 => "Tue"
  | _ => "Wed"

end Date

end BackupHistory
