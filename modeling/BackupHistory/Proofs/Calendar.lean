import BackupHistory.Calendar
import Mathlib.Data.List.Basic

namespace BackupHistory.Date

/-!
# Days in the order of their dates

The years and the months of a year cut the numbered days into stretches, each
as long as the calendar says. So the date of a numbered day is a date of the
calendar, and later days have later dates: by the year, in one year by the
month, and in one month by the day.
-/

/-- Dates in the order of the calendar. -/
def IsBefore (left right : Date) : Prop :=
  left.year < right.year ∨
    left.year = right.year ∧
      (left.month < right.month ∨
        left.month = right.month ∧ left.day < right.day)

/-- The days of months of the given lengths. -/
def daysOf (lengths : List Nat) : Nat :=
  lengths.foldl Nat.add 0

theorem daysOf_cons (length : Nat) (rest : List Nat) :
    daysOf (length :: rest) = length + daysOf rest := by
  have shifted (start : Nat) :
      rest.foldl Nat.add start = start + rest.foldl Nat.add 0 := by
    induction rest generalizing start with
    | nil => rfl
    | cons next rest inductionHypothesis =>
        rw [List.foldl_cons, List.foldl_cons,
          inductionHypothesis (start.add next),
          inductionHypothesis (Nat.add 0 next)]
        simp only [Nat.add_eq]
        omega
  unfold daysOf
  rw [List.foldl_cons, shifted, Nat.add_eq, Nat.zero_add]

section Years

theorem yearStart_mono {first second : Int} (below : first ≤ second) :
    yearStart first ≤ yearStart second := by
  unfold yearStart
  omega

/-- The months of a year fill it. -/
theorem yearStart_add_daysOf (year : Int) :
    yearStart year + (daysOf (monthLengths year) : Nat) =
      yearStart (year + 1) := by
  have leap :
      isLeapYear year = true ↔
        year % 4 = 0 ∧ (year % 100 ≠ 0 ∨ year % 400 = 0) := by
    simp [isLeapYear]
  unfold yearStart monthLengths
  by_cases isLeap : isLeapYear year = true
  · have rule := leap.1 isLeap
    simp only [isLeap, if_true, daysOf, List.foldl_cons, List.foldl_nil,
      Nat.add_eq]
    omega
  · have rule := mt leap.2 isLeap
    simp only [isLeap, Bool.false_eq_true, if_false, daysOf,
      List.foldl_cons, List.foldl_nil, Nat.add_eq]
    omega

/-- A day is in the year that starts on it or last before it. -/
theorem yearStart_yearOf (day : Int) :
    yearStart (yearOf day) ≤ day ∧ day < yearStart (yearOf day + 1) := by
  have estimated :
      yearStart (day * 400 / 146097 - 1) ≤ day ∧
        day < yearStart (day * 400 / 146097 + 1 + 1) := by
    unfold yearStart
    omega
  unfold yearOf
  simp only
  split
  next early =>
    rw [Int.sub_add_cancel]
    exact ⟨estimated.1, early⟩
  next notEarly =>
    split
    next late => exact ⟨late, estimated.2⟩
    next notLate => exact ⟨Int.not_lt.1 notEarly, Int.not_le.1 notLate⟩

theorem yearOf_mono {first second : Int} (below : first ≤ second) :
    yearOf first ≤ yearOf second := by
  have firstYear := yearStart_yearOf first
  have secondYear := yearStart_yearOf second
  by_contra later
  have starts :=
    yearStart_mono (show yearOf second + 1 ≤ yearOf first by omega)
  omega

end Years

section Months

/-- A day within months falls into one of them, on one of its days. -/
theorem monthAndDay_within
    (month : Nat)
    {lengths : List Nat}
    {day : Nat}
    (within : day < daysOf lengths) :
    ∃ index,
      (monthAndDay month lengths day).1 = month + index ∧
        index < lengths.length ∧
        1 ≤ (monthAndDay month lengths day).2 ∧
        (monthAndDay month lengths day).2 ≤ lengths.getD index 0 ∧
        daysOf (lengths.take index) + (monthAndDay month lengths day).2 =
          day + 1 := by
  induction lengths generalizing month day with
  | nil => exact absurd within (Nat.not_lt_zero day)
  | cons length rest inductionHypothesis =>
      simp only [monthAndDay]
      rw [daysOf_cons] at within
      split
      next inFirst =>
        exact ⟨0, rfl, by simp, by simp, inFirst, by simp [daysOf]⟩
      next later =>
        obtain ⟨index, sameMonth, isIndex, isDay, inMonth, total⟩ :=
          inductionHypothesis (month + 1)
            (show day - length < daysOf rest by omega)
        refine ⟨index + 1, by omega, by simpa using isIndex, isDay,
          by simpa using inMonth, ?_⟩
        rw [List.take_succ_cons, daysOf_cons]
        omega

theorem le_month_monthAndDay (month : Nat) (lengths : List Nat) (day : Nat) :
    month ≤ (monthAndDay month lengths day).1 := by
  induction lengths generalizing month day with
  | nil => exact Nat.le_refl month
  | cons length rest inductionHypothesis =>
      simp only [monthAndDay]
      split
      · exact Nat.le_refl month
      · exact Nat.le_of_succ_le (inductionHypothesis (month + 1) _)

/-- Later days are in later months or later in the same month. -/
theorem monthAndDay_lt
    {first second : Nat}
    (below : first < second)
    (month : Nat)
    (lengths : List Nat) :
    (monthAndDay month lengths first).1 <
        (monthAndDay month lengths second).1 ∨
      (monthAndDay month lengths first).1 =
          (monthAndDay month lengths second).1 ∧
        (monthAndDay month lengths first).2 <
          (monthAndDay month lengths second).2 := by
  induction lengths generalizing month first second with
  | nil => exact .inr ⟨rfl, Nat.succ_lt_succ below⟩
  | cons length rest inductionHypothesis =>
      have laterMonth := le_month_monthAndDay (month + 1) rest
      simp only [monthAndDay]
      split
      next firstInMonth =>
        split
        next secondInMonth => exact .inr ⟨rfl, Nat.succ_lt_succ below⟩
        next secondLater => exact .inl (laterMonth _)
      next firstLater =>
        rw [if_neg (by omega)]
        exact inductionHypothesis (by omega) (month + 1)

end Months

/-- Where in its year a numbered day is. -/
def dayOfYear (number : Int) : Nat :=
  (number + epochDay - yearStart (yearOf (number + epochDay))).toNat

theorem ofDayNumber_eq (number : Int) :
    ofDayNumber number =
      ⟨yearOf (number + epochDay),
        (monthAndDay 1 (monthLengths (yearOf (number + epochDay)))
          (dayOfYear number)).1,
        (monthAndDay 1 (monthLengths (yearOf (number + epochDay)))
          (dayOfYear number)).2⟩ :=
  rfl

theorem dayOfYear_lt (number : Int) :
    dayOfYear number <
      daysOf (monthLengths (yearOf (number + epochDay))) := by
  have bounds := yearStart_yearOf (number + epochDay)
  have months := yearStart_add_daysOf (yearOf (number + epochDay))
  unfold dayOfYear
  omega

/-- The date of a numbered day is a date of the calendar. -/
theorem isValid_ofDayNumber (number : Int) :
    (ofDayNumber number).IsValid := by
  obtain ⟨index, isMonth, isIndex, isDay, inMonth, _⟩ :=
    monthAndDay_within 1 (dayOfYear_lt number)
  have months : index < 12 := isIndex
  rw [ofDayNumber_eq]
  unfold IsValid
  simp only [isMonth, Nat.add_sub_cancel_left]
  exact ⟨by omega, by omega, isDay, inMonth⟩

/-- The date of a numbered day is the date that has this number. -/
theorem toDayNumber_ofDayNumber (number : Int) :
    (ofDayNumber number).toDayNumber = number := by
  obtain ⟨index, isMonth, _, _, _, total⟩ :=
    monthAndDay_within 1 (dayOfYear_lt number)
  have bounds := yearStart_yearOf (number + epochDay)
  rw [ofDayNumber_eq]
  unfold toDayNumber
  simp only [isMonth, Nat.add_sub_cancel_left]
  unfold dayOfYear daysOf at total
  unfold dayOfYear
  omega

/-- Later days have later dates. -/
theorem isBefore_ofDayNumber {first second : Int} (below : first < second) :
    (ofDayNumber first).IsBefore (ofDayNumber second) := by
  rw [ofDayNumber_eq, ofDayNumber_eq]
  unfold IsBefore
  simp only
  rcases Int.lt_or_eq_of_le
      (yearOf_mono (Int.le_of_lt (Int.add_lt_add_right below epochDay)))
    with earlier | sameYear
  · exact .inl earlier
  · have firstYear := yearStart_yearOf (first + epochDay)
    rw [← sameYear]
    refine .inr ⟨rfl, monthAndDay_lt ?_ 1 _⟩
    unfold dayOfYear
    rw [← sameYear]
    omega

/-- Different days have different dates. -/
theorem ofDayNumber_injective {first second : Int}
    (same : ofDayNumber first = ofDayNumber second) :
    first = second := by
  rw [← toDayNumber_ofDayNumber first, same, toDayNumber_ofDayNumber]

end BackupHistory.Date
