import BackupHistory.Instant.Writer
import BackupHistory.Proofs.Calendar

namespace BackupHistory

/-!
# Days in the order of their texts

A day is written as its year, month and day, each with zeros before it. The
text tells which day it is, whatever the year. While the year has four digits
the texts are in the order of the days, so sorting texts sorts days. In earlier
and later years, which carry a sign, they are not.
-/

/-- Lists of one length are followed by anything without changing order. -/
theorem append_lt_append_of_lt
    {first second : List Char}
    (below : first < second)
    (sameLength : first.length = second.length)
    (firstRest secondRest : List Char) :
    first ++ firstRest < second ++ secondRest := by
  induction first generalizing second with
  | nil =>
      rw [List.eq_nil_of_length_eq_zero sameLength.symm] at below
      exact absurd below (List.not_lt_nil [])
  | cons firstHead firstTail inductionHypothesis =>
      cases second with
      | nil => exact absurd below (List.not_lt_nil _)
      | cons secondHead secondTail =>
          rw [List.cons_append, List.cons_append, List.cons_lt_cons_iff]
          rcases List.cons_lt_cons_iff.1 below with before | ⟨same, tail⟩
          · exact .inl before
          · exact .inr
              ⟨same, inductionHypothesis tail (Nat.succ.inj sameLength)⟩

namespace Digit

theorem toChar_injective {first second : Digit}
    (same : first.toChar = second.toChar) :
    first = second := by
  have read := congrArg ofChar? same
  rw [ofChar?_toChar, ofChar?_toChar] at read
  exact Option.some.inj read

theorem toChar_lt :
    ∀ {first second : Digit},
      first < second →
      first.toChar < second.toChar := by
  decide

theorem toChar_ne_sign :
    ∀ digit : Digit, digit.toChar ≠ '-' ∧ digit.toChar ≠ '+' := by
  decide

/-- Zeros before the digits of a number change nothing. -/
theorem appendTo_replicate_zero (count : Nat) (digits : List Digit) :
    appendTo 0 (List.replicate count zero ++ digits) = appendTo 0 digits := by
  induction count with
  | zero => rfl
  | succ count inductionHypothesis => exact inductionHypothesis

end Digit

section Padding

/-- The digits of a padded number, the zeros among them. -/
theorem paddedText_eq_map (width number : Nat) :
    paddedText width number =
      (List.replicate (width - (decimalText number).length) Digit.zero ++
        decimalDigits number).map Digit.toChar := by
  rw [List.map_append, List.map_replicate]
  rfl

theorem paddedText_injective {width first second : Nat}
    (same : paddedText width first = paddedText width second) :
    first = second := by
  rw [paddedText_eq_map, paddedText_eq_map] at same
  have digits :=
    List.map_injective_iff.2
      (fun _ _ => Digit.toChar_injective) same
  have numbers := congrArg (Digit.appendTo 0) digits
  rw [Digit.appendTo_replicate_zero, Digit.appendTo_replicate_zero,
    Digit.appendTo_decimalDigits, Digit.appendTo_decimalDigits] at numbers
  exact numbers

theorem paddedText_ne_sign (width number : Nat) (rest : List Char) :
    paddedText width number ≠ '-' :: rest ∧
      paddedText width number ≠ '+' :: rest := by
  have fromDigit {character : Char}
      (starts : paddedText width number = character :: rest) :
      ∃ digit : Digit, digit.toChar = character := by
    have member : character ∈ paddedText width number := by
      rw [starts]
      exact List.mem_cons_self
    rw [paddedText_eq_map, List.mem_map] at member
    obtain ⟨digit, _, isCharacter⟩ := member
    exact ⟨digit, isCharacter⟩
  constructor
  · intro starts
    obtain ⟨digit, isMinus⟩ := fromDigit starts
    exact (Digit.toChar_ne_sign digit).1 isMinus
  · intro starts
    obtain ⟨digit, isPlus⟩ := fromDigit starts
    exact (Digit.toChar_ne_sign digit).2 isPlus

/-- The last digit of a padded number comes after the padded rest of it. -/
theorem paddedText_succ (width number : Nat) :
    paddedText (width + 2) number =
      paddedText (width + 1) (number / 10) ++
        [Digit.toChar (Fin.ofNat 10 number)] := by
  have ofDigit {digit : Nat} (small : digit < 10) :
      decimalText digit = [Digit.toChar (Fin.ofNat 10 digit)] := by
    rw [decimalText, decimalDigits, if_pos small]
    rfl
  by_cases small : number < 10
  · have rest : decimalText (number / 10) = [Digit.zero.toChar] := by
      rw [Nat.div_eq_of_lt small]
      exact ofDigit (Nat.zero_lt_succ 9)
    unfold paddedText
    rw [ofDigit small, rest]
    simp only [List.length_singleton, Nat.add_sub_cancel]
    rw [show width + 2 - 1 = width + 1 from rfl, List.replicate_succ']
    rfl
  · have digits :
        decimalText number =
          decimalText (number / 10) ++
            [Digit.toChar (Fin.ofNat 10 number)] := by
      rw [decimalText, decimalDigits, if_neg small, List.map_append]
      rfl
    unfold paddedText
    rw [digits]
    simp only [List.length_append, List.length_singleton]
    rw [show width + 2 - ((decimalText (number / 10)).length + 1) =
        width + 1 - (decimalText (number / 10)).length by omega]
    exact (List.append_assoc ..).symm

theorem paddedText_one {number : Nat} (fits : number < 10) :
    paddedText 1 number = [Digit.toChar (Fin.ofNat 10 number)] := by
  unfold paddedText decimalText
  rw [decimalDigits, if_pos fits]
  rfl

theorem length_paddedText (width : Nat) {number : Nat}
    (fits : number < Nat.pow 10 (width + 1)) :
    (paddedText (width + 1) number).length = width + 1 := by
  induction width generalizing number with
  | zero => rw [paddedText_one fits, List.length_singleton]
  | succ width inductionHypothesis =>
      rw [paddedText_succ, List.length_append, List.length_singleton,
        inductionHypothesis (Nat.div_lt_of_lt_mul ?_)]
      rw [Nat.mul_comm]
      exact fits

/-- Numbers that are padded to one width are in the order of their texts. -/
theorem paddedText_lt (width : Nat) {first second : Nat}
    (below : first < second)
    (fits : second < Nat.pow 10 (width + 1)) :
    paddedText (width + 1) first < paddedText (width + 1) second := by
  have lastDigit {first second : Nat}
      (below : first % 10 < second % 10) :
      [Digit.toChar (Fin.ofNat 10 first)] <
        [Digit.toChar (Fin.ofNat 10 second)] :=
    List.cons_lt_cons_iff.2 (.inl (Digit.toChar_lt below))
  induction width generalizing first second with
  | zero =>
      rw [paddedText_one fits, paddedText_one (Nat.lt_trans below fits)]
      apply lastDigit
      rw [Nat.mod_eq_of_lt fits, Nat.mod_eq_of_lt (Nat.lt_trans below fits)]
      exact below
  | succ width inductionHypothesis =>
      have secondFits : second / 10 < Nat.pow 10 (width + 1) := by
        apply Nat.div_lt_of_lt_mul
        rw [Nat.mul_comm]
        exact fits
      rw [paddedText_succ, paddedText_succ]
      rcases Nat.lt_or_eq_of_le
          (Nat.div_le_div_right (c := 10) (Nat.le_of_lt below))
        with earlier | same
      · have lengths :
            (paddedText (width + 1) (first / 10)).length =
              (paddedText (width + 1) (second / 10)).length := by
          rw [length_paddedText width secondFits,
            length_paddedText width (Nat.lt_trans earlier secondFits)]
        exact append_lt_append_of_lt
          (inductionHypothesis earlier secondFits) lengths _ _
      · rw [same]
        exact List.append_left_lt (lastDigit (by omega))

end Padding

namespace Date

variable {left right : Date}

theorem yearText_injective {first second : Int}
    (same : yearText first = yearText second) :
    first = second := by
  have noSign := paddedText_ne_sign 4
  unfold yearText at same
  split at same
  next firstNegative =>
    split at same
    next secondNegative =>
      have amounts := paddedText_injective (List.cons.inj same).2
      omega
    next =>
      split at same
      next => exact absurd (List.cons.inj same).1 (by decide)
      next => exact absurd same.symm (noSign _ _).1
  next firstFromZero =>
    split at same
    next firstLarge =>
      split at same
      next => exact absurd (List.cons.inj same).1 (by decide)
      next secondFromZero =>
        split at same
        next secondLarge =>
          have amounts := paddedText_injective (List.cons.inj same).2
          omega
        next => exact absurd same.symm (noSign _ _).2
    next firstSmall =>
      split at same
      next => exact absurd same (noSign _ _).1
      next secondFromZero =>
        split at same
        next => exact absurd same (noSign _ _).2
        next =>
          have amounts := paddedText_injective same
          omega

theorem yearText_of_fourDigits {year : Int}
    (fromZero : 0 ≤ year) (fits : year ≤ 9999) :
    yearText year = paddedText 4 year.natAbs := by
  unfold yearText
  rw [if_neg (by omega), if_neg (by omega)]

theorem length_month (valid : left.IsValid) :
    (paddedText 2 left.month).length = 2 :=
  length_paddedText 1 (Nat.lt_of_le_of_lt valid.2.1 (by decide))

/-- No month is longer than 31 days. -/
theorem day_le_of_isValid (valid : left.IsValid) : left.day ≤ 31 := by
  have lengths :
      ∀ length ∈ monthLengths left.year, length ≤ 31 := by
    unfold monthLengths
    cases isLeapYear left.year <;> decide
  have fits : left.month - 1 < (monthLengths left.year).length := by
    have months : (monthLengths left.year).length = 12 := rfl
    obtain ⟨first, last, _, _⟩ := valid
    omega
  refine Nat.le_trans valid.2.2.2 ?_
  rw [List.getD_eq_getElem?_getD, List.getElem?_eq_getElem fits]
  exact lengths _ (List.getElem_mem fits)

theorem length_day (valid : left.IsValid) :
    (paddedText 2 left.day).length = 2 :=
  length_paddedText 1
    (Nat.lt_of_le_of_lt (day_le_of_isValid valid) (by decide))

/-- A date of the calendar can be told from its text. -/
theorem toText_injective
    (leftValid : left.IsValid)
    (rightValid : right.IsValid)
    (same : left.toText = right.toText) :
    left = right := by
  unfold toText at same
  obtain ⟨sameStart, sameDay⟩ :=
    List.append_inj' same
      (by simp [length_day leftValid, length_day rightValid])
  obtain ⟨sameYear, sameMonth⟩ :=
    List.append_inj' sameStart
      (by simp [length_month leftValid, length_month rightValid])
  cases left
  cases right
  congr
  · exact yearText_injective sameYear
  · exact paddedText_injective (List.cons.inj sameMonth).2
  · exact paddedText_injective (List.cons.inj sameDay).2

/-- While years have four digits, texts of dates are in the order of dates. -/
theorem toText_lt
    (leftValid : left.IsValid)
    (rightValid : right.IsValid)
    (fromZero : 0 ≤ left.year)
    (fits : right.year ≤ 9999)
    (before : left.IsBefore right) :
    left.toText < right.toText := by
  have yearFits {year : Int} (fits : year ≤ 9999) (fromZero : 0 ≤ year) :
      year.natAbs < Nat.pow 10 4 := by
    have bound : Nat.pow 10 4 = 10000 := rfl
    omega
  have rightDay : right.day < Nat.pow 10 2 :=
    Nat.lt_of_le_of_lt (day_le_of_isValid rightValid) (by decide)
  have rightMonth : right.month < Nat.pow 10 2 :=
    Nat.lt_of_le_of_lt rightValid.2.1 (by decide)
  have ordered : left.year ≤ right.year := by
    unfold IsBefore at before
    omega
  unfold toText
  rw [yearText_of_fourDigits fromZero (by omega),
    yearText_of_fourDigits (by omega) fits]
  simp only [List.append_assoc]
  rcases before with
    earlierYear | ⟨sameYear, earlierMonth | ⟨sameMonth, earlierDay⟩⟩
  · apply append_lt_append_of_lt
    · exact paddedText_lt 3 (by omega) (yearFits fits (by omega))
    · rw [length_paddedText 3 (yearFits (by omega) fromZero),
        length_paddedText 3 (yearFits fits (by omega))]
  · rw [sameYear]
    apply List.append_left_lt
    rw [List.cons_append, List.cons_append, List.cons_lt_cons_self]
    apply append_lt_append_of_lt
    · exact paddedText_lt 1 earlierMonth rightMonth
    · rw [length_month leftValid, length_month rightValid]
  · rw [sameYear, sameMonth]
    apply List.append_left_lt
    apply List.append_left_lt
    rw [List.cons_lt_cons_self]
    exact paddedText_lt 1 earlierDay rightDay

end Date

namespace Instant

/-- The number of the day of an instant by a clock ahead of universal time. -/
def localDay (offset : Int) (instant : Instant) : Int :=
  (instant.reading offset).dayNumber

/-- The year of an instant by a clock ahead of universal time. -/
def localYear (offset : Int) (instant : Instant) : Int :=
  (Date.ofDayNumber (instant.localDay offset)).year

variable {offset : Int} {first second : Instant}

instance : Std.TransOrd Instant :=
  inferInstanceAs
    (Std.TransCmp (compareLex (compareOn seconds) (compareOn nanos)))

instance : Std.LawfulEqOrd Instant where
  eq_of_compare {first second} same := by
    obtain ⟨sameSecond, sameNanos⟩ := Ordering.then_eq_eq.1 same
    have seconds := Std.LawfulEqOrd.eq_of_compare sameSecond
    have nanos := Std.LawfulEqOrd.eq_of_compare sameNanos
    cases first
    cases second
    congr

/-- An instant on an earlier day is earlier, also where a second is leapt. -/
theorem compare_eq_lt_of_localDay_lt
    (below : first.localDay offset < second.localDay offset) :
    compare first second = .lt := by
  have daySeconds : daySeconds = 86400 := rfl
  have days :
      (first.seconds + offset) / Instant.daySeconds <
        (second.seconds + offset) / Instant.daySeconds :=
    below
  have seconds : first.seconds < second.seconds := by
    rw [daySeconds] at days
    omega
  exact Ordering.then_eq_lt.2 (.inl (Int.compare_eq_lt.2 seconds))

theorem dayText_eq (offset : Int) (instant : Instant) :
    instant.dayText offset =
      String.ofList (Date.ofDayNumber (instant.localDay offset)).toText :=
  rfl

/-- The text of a day tells which day it is. -/
theorem dayText_eq_iff :
    first.dayText offset = second.dayText offset ↔
      first.localDay offset = second.localDay offset := by
  constructor
  · intro same
    rw [dayText_eq, dayText_eq, String.ofList_inj] at same
    exact Date.ofDayNumber_injective
      (Date.toText_injective (Date.isValid_ofDayNumber _)
        (Date.isValid_ofDayNumber _) same)
  · intro same
    rw [dayText_eq, dayText_eq, same]

/-- Instants with the same day have the same weekday. -/
theorem weekdayText_eq
    (same : first.dayText offset = second.dayText offset) :
    first.weekdayText offset = second.weekdayText offset := by
  have sameDay :
      (first.reading offset).dayNumber =
        (second.reading offset).dayNumber :=
    dayText_eq_iff.1 same
  unfold weekdayText
  rw [same, sameDay]

/-- While years have four digits, later days have larger texts. -/
theorem dayText_lt
    (fromZero : 0 ≤ first.localYear offset)
    (fits : second.localYear offset ≤ 9999)
    (below : first.localDay offset < second.localDay offset) :
    first.dayText offset < second.dayText offset := by
  rw [dayText_eq, dayText_eq, String.lt_iff, String.toList_ofList,
    String.toList_ofList]
  exact Date.toText_lt (Date.isValid_ofDayNumber _)
    (Date.isValid_ofDayNumber _) fromZero fits
    (Date.isBefore_ofDayNumber below)

/-- While years have four digits, days with larger texts are later. -/
theorem localDay_lt_of_dayText_lt
    (fromZero : 0 ≤ second.localYear offset)
    (fits : first.localYear offset ≤ 9999)
    (texts : first.dayText offset < second.dayText offset) :
    first.localDay offset < second.localDay offset := by
  rcases Int.lt_trichotomy (first.localDay offset) (second.localDay offset)
    with below | same | above
  · exact below
  · rw [dayText_eq_iff.2 same] at texts
    exact absurd texts (String.lt_irrefl _)
  · exact absurd (dayText_lt fromZero fits above) (String.lt_asymm texts)

end Instant

end BackupHistory
