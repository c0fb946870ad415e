import BackupHistory.Instant.Reader
import BackupHistory.Proofs.Instant
import Mathlib.Tactic.SplitIfs

namespace BackupHistory

/-!
# Reading times back

A time is read from the text that it is written with, be it a leap second, a
nanosecond or a year with a sign. Every number in the text ends where something
else than a digit stands, so no number is read too far.
-/

namespace Text

/-- A text that no digit starts. -/
def EndsNumber (text : List Char) : Prop :=
  ∀ character ∈ text.head?, Digit.ofChar? character = none

theorem leadingDigits_append
    {digits : List Digit}
    {count : Nat}
    {rest : List Char}
    (fits : digits.length ≤ count)
    (ends : EndsNumber rest) :
    leadingDigits count (digits.map Digit.toChar ++ rest) =
      (digits, rest) := by
  induction digits generalizing count with
  | nil =>
      cases count with
      | zero => rfl
      | succ count =>
          cases rest with
          | nil => rfl
          | cons character rest =>
              have notDigit := ends character rfl
              simp [leadingDigits, notDigit]
  | cons digit digits inductionHypothesis =>
      obtain ⟨count, rfl⟩ := Nat.exists_eq_add_of_le' fits
      simp only [List.length_cons, ← Nat.add_assoc, List.map_cons,
        List.cons_append, leadingDigits, Digit.ofChar?_toChar]
      rw [inductionHypothesis (Nat.le_add_left ..)]

theorem scanDigits_append
    {digits : List Digit}
    {count : Nat}
    {rest : List Char}
    (inhabited : digits ≠ [])
    (fits : digits.length ≤ count)
    (ends : EndsNumber rest) :
    scanDigits count (digits.map Digit.toChar ++ rest) =
      some (digits, rest) := by
  unfold scanDigits
  rw [leadingDigits_append fits ends]
  cases digits with
  | nil => exact absurd rfl inhabited
  | cons digit digits => rfl

end Text

namespace Instant

open Text (EndsNumber)

section Numbers

theorem dropBlanks_toChar (digit : Digit) (rest : List Char) :
    Text.dropBlanks (digit.toChar :: rest) = digit.toChar :: rest := by
  have notBlank : ∀ digit : Digit, Text.isBlank digit.toChar = false := by
    decide
  unfold Text.dropBlanks
  rw [List.dropWhile_cons, notBlank digit]
  rfl

/-- A padded number is a list of digits that stand for it. -/
theorem exists_digits_paddedText (width number : Nat) :
    ∃ first rest,
      paddedText width number = (first :: rest).map Digit.toChar ∧
        Digit.appendTo 0 (first :: rest) = number := by
  have value :
      Digit.appendTo 0
          (List.replicate (width - (decimalText number).length)
              Digit.zero ++
            decimalDigits number) =
        number := by
    rw [Digit.appendTo_replicate_zero, Digit.appendTo_decimalDigits]
  have inhabited :
      List.replicate (width - (decimalText number).length) Digit.zero ++
          decimalDigits number ≠
        [] := by
    intro none
    have noDigits := (List.append_eq_nil_iff.1 none).2
    rw [decimalDigits] at noDigits
    split at noDigits <;> simp at noDigits
  obtain ⟨first, rest, digits⟩ := List.exists_cons_of_ne_nil inhabited
  rw [digits] at value
  exact ⟨first, rest, digits ▸ paddedText_eq_map width number, value⟩

theorem scanNumber_paddedText
    {width number count : Nat}
    {rest : List Char}
    (fits : (paddedText width number).length ≤ count)
    (ends : EndsNumber rest) :
    scanNumber count (paddedText width number ++ rest) =
      some (number, rest) := by
  obtain ⟨first, digits, written, value⟩ :=
    exists_digits_paddedText width number
  rw [written, List.length_map] at fits
  have scanned :=
    Text.scanDigits_append (List.cons_ne_nil first digits) fits ends
  unfold scanNumber
  rw [written, List.map_cons, List.cons_append, dropBlanks_toChar,
    ← List.cons_append, ← List.map_cons, scanned]
  simp only [Option.map_some, value]

end Numbers

section Dates

/-- A year without a sign has up to four digits. -/
theorem scanYear_toChar (digit : Digit) (rest : List Char) :
    scanYear (digit.toChar :: rest) =
      (Text.scanDigits 4 (digit.toChar :: rest)).map
        fun (digits, after) =>
          ((Digit.appendTo 0 digits : Int), after) := by
  obtain ⟨notMinus, notPlus⟩ := Digit.toChar_ne_sign digit
  unfold scanYear
  rw [dropBlanks_toChar]
  split
  next starts => exact absurd (List.cons.inj starts).1 notMinus
  next starts => exact absurd (List.cons.inj starts).1 notPlus
  next => rfl

/-- A year with a sign has any number of digits. -/
theorem scanYear_sign
    (negative : Bool)
    {digits : List Digit}
    {rest : List Char}
    (inhabited : digits ≠ [])
    (ends : EndsNumber rest) :
    scanYear
        ((if negative then '-' else '+') ::
          (digits.map Digit.toChar ++ rest)) =
      some
        (if negative then
          -(Digit.appendTo 0 digits : Int)
        else
          Digit.appendTo 0 digits, rest) := by
  have fits :
      digits.length ≤ (digits.map Digit.toChar ++ rest).length := by
    simp
  have scanned := Text.scanDigits_append inhabited fits ends
  have minus (text : List Char) :
      Text.dropBlanks ('-' :: text) = '-' :: text :=
    rfl
  have plus (text : List Char) :
      Text.dropBlanks ('+' :: text) = '+' :: text :=
    rfl
  unfold scanYear
  cases negative with
  | true => simp only [↓reduceIte, minus, scanned, Option.map_some]
  | false =>
      simp only [Bool.false_eq_true, ↓reduceIte, plus, scanned,
        Option.map_some]

theorem scanYear_yearText
    {year : Int}
    {rest : List Char}
    (ends : EndsNumber rest) :
    scanYear (Date.yearText year ++ rest) = some (year, rest) := by
  obtain ⟨first, digits, written, value⟩ :=
    exists_digits_paddedText 4 year.natAbs
  have inhabited := List.cons_ne_nil first digits
  unfold Date.yearText
  rw [written]
  split
  next negative =>
    have below : -(year.natAbs : Int) = year := by omega
    refine (scanYear_sign true inhabited ends).trans ?_
    rw [if_pos rfl, value, below]
  next fromZero =>
    have above : (year.natAbs : Int) = year := by omega
    split
    next large =>
      refine (scanYear_sign false inhabited ends).trans ?_
      rw [if_neg Bool.false_ne_true, value, above]
    next small =>
      have fourDigits : (first :: digits).length ≤ 4 := by
        have yearFits : year.natAbs < Nat.pow 10 4 := by
          have bound : Nat.pow 10 4 = 10000 := rfl
          omega
        rw [← List.length_map Digit.toChar, ← written]
        exact Nat.le_of_eq (length_paddedText 3 yearFits)
      have scanned := Text.scanDigits_append inhabited fourDigits ends
      rw [List.map_cons, List.cons_append] at scanned ⊢
      rw [scanYear_toChar, scanned]
      simp only [Option.map_some, value, above]

theorem scanSeparator_cons
    {separator : Char}
    (notBlank : Text.isBlank separator = false)
    (rest : List Char) :
    scanSeparator separator (separator :: rest) = some rest := by
  unfold scanSeparator Text.dropBlanks
  rw [List.dropWhile_cons, notBlank]
  simp

theorem endsNumber_cons {character : Char}
    (notDigit : Digit.ofChar? character = none) (rest : List Char) :
    EndsNumber (character :: rest) := by
  intro first isFirst
  obtain rfl := Option.some.inj isFirst
  exact notDigit

theorem scanDate_toText
    {date : Date}
    {rest : List Char}
    (valid : date.IsValid)
    (ends : EndsNumber rest) :
    scanDate (date.toText ++ rest) = some (date, rest) := by
  have hyphen (rest : List Char) : EndsNumber ('-' :: rest) :=
    endsNumber_cons rfl rest
  have separated (rest : List Char) :
      scanSeparator '-' ('-' :: rest) = some rest :=
    scanSeparator_cons rfl rest
  have month := Nat.le_of_eq (Date.length_month valid)
  have day := Nat.le_of_eq (Date.length_day valid)
  unfold scanDate Date.toText
  simp only [List.append_assoc, List.cons_append,
    scanYear_yearText (hyphen _), separated,
    scanNumber_paddedText month (hyphen _), scanNumber_paddedText day ends,
    Option.bind_eq_bind, Option.bind_some]

end Dates

section Times

/-- The part of a second is read from up to nine digits of it. -/
theorem scanFraction_paddedText
    {width number : Nat}
    {rest : List Char}
    (counted : width + 1 ≤ 9)
    (fits : number < Nat.pow 10 (width + 1))
    (ends : EndsNumber rest) :
    scanFraction ('.' :: (paddedText (width + 1) number ++ rest)) =
      some (number * Nat.pow 10 (9 - (width + 1)), rest) := by
  obtain ⟨first, digits, written, value⟩ :=
    exists_digits_paddedText (width + 1) number
  have length : (first :: digits).length = width + 1 := by
    rw [← List.length_map Digit.toChar, ← written,
      length_paddedText width fits]
  have room :
      (first :: digits).length ≤
        ((first :: digits).map Digit.toChar ++ rest).length := by
    simp
  have scanned :=
    Text.scanDigits_append (List.cons_ne_nil first digits) room ends
  have nanos :
      fractionNanos (first :: digits) =
        number * Nat.pow 10 (9 - (width + 1)) := by
    unfold fractionNanos
    dsimp only
    rw [List.take_of_length_le (length ▸ counted), value, length]
  unfold scanFraction
  rw [written]
  simp only [scanned, Option.map_some, nanos]

theorem scanFraction_subsecondText
    {nanos : Nat}
    {rest : List Char}
    (fits : nanos < second)
    (ends : EndsNumber rest)
    (noPoint : '.' ∉ rest.head?) :
    scanFraction (subsecondText nanos ++ rest) = some (nanos, rest) := by
  have thousand :
      Nat.pow 10 (2 + 1) = 1000 ∧ Nat.pow 10 (9 - (2 + 1)) = 1000000 :=
    ⟨rfl, rfl⟩
  have million :
      Nat.pow 10 (5 + 1) = 1000000 ∧ Nat.pow 10 (9 - (5 + 1)) = 1000 :=
    ⟨rfl, rfl⟩
  have billion :
      Nat.pow 10 (8 + 1) = 1000000000 ∧ Nat.pow 10 (9 - (8 + 1)) = 1 :=
    ⟨rfl, rfl⟩
  unfold second at fits
  unfold subsecondText
  split
  next none =>
    rw [none, List.nil_append]
    unfold scanFraction
    split
    next => exact absurd rfl noPoint
    next => rfl
  next =>
  split
  next millis =>
    rw [List.cons_append,
      scanFraction_paddedText (by decide) (by omega) ends, thousand.2,
      Nat.div_mul_cancel (Nat.dvd_of_mod_eq_zero millis)]
  next =>
  split
  next micros =>
    rw [List.cons_append,
      scanFraction_paddedText (by decide) (by omega) ends, million.2,
      Nat.div_mul_cancel (Nat.dvd_of_mod_eq_zero micros)]
  next =>
    rw [List.cons_append,
      scanFraction_paddedText (by decide) (by omega) ends, billion.2,
      Nat.mul_one]

theorem endsNumber_subsecondText (nanos : Nat) {rest : List Char}
    (ends : EndsNumber rest) :
    EndsNumber (subsecondText nanos ++ rest) := by
  unfold subsecondText
  split_ifs
  · exact ends
  · exact endsNumber_cons rfl _
  · exact endsNumber_cons rfl _
  · exact endsNumber_cons rfl _

/-- A clock time is read with the part of a second that follows it. -/
theorem scanTime_clockText
    {reading : Reading}
    {nanos : Nat}
    {rest : List Char}
    (hour : reading.hour < 24)
    (minute : reading.minute < 60)
    (second : reading.second ≤ 60)
    (fits : nanos < Instant.second)
    (ends : EndsNumber rest)
    (noPoint : '.' ∉ rest.head?) :
    scanTime (reading.clockText ++ (subsecondText nanos ++ rest)) =
      some
        (if reading.second = 60 then
          (⟨60 * (60 * reading.hour + reading.minute) + 59,
            Instant.second + nanos⟩, rest)
        else
          (⟨60 * (60 * reading.hour + reading.minute) + reading.second,
            nanos⟩, rest)) := by
  have colon (rest : List Char) : EndsNumber (':' :: rest) :=
    endsNumber_cons rfl rest
  have separated (rest : List Char) :
      scanSeparator ':' (':' :: rest) = some rest :=
    scanSeparator_cons rfl rest
  have twoDigits {number : Nat} (small : number ≤ 60) :
      (paddedText 2 number).length ≤ 2 :=
    Nat.le_of_eq
      (length_paddedText 1 (Nat.lt_of_le_of_lt small (by decide)))
  have hourDigits : (paddedText 2 reading.hour).length ≤ 2 :=
    twoDigits (by omega)
  have minuteDigits : (paddedText 2 reading.minute).length ≤ 2 :=
    twoDigits (by omega)
  unfold scanTime Reading.clockText
  simp only [List.append_assoc, List.cons_append, separated,
    scanNumber_paddedText hourDigits (colon _),
    scanNumber_paddedText minuteDigits (colon _),
    scanNumber_paddedText (twoDigits second)
      (endsNumber_subsecondText nanos ends),
    scanFraction_subsecondText fits ends noPoint, Option.bind_eq_bind,
    Option.bind_some, hour, minute, second, and_self, ↓reduceIte]
  split <;> rfl

end Times

/-- A clock on universal time shows the time of an instant, a leap second as
second sixty. -/
theorem scanTime_reading {rest : List Char}
    (instant : Instant)
    (ends : EndsNumber rest)
    (noPoint : '.' ∉ rest.head?) :
    scanTime
        ((instant.reading 0).clockText ++
          (subsecondText (instant.reading 0).nanos ++ rest)) =
      some
        (⟨(instant.seconds % daySeconds).toNat, instant.nanos⟩,
          rest) := by
  have subsecond := instant.subsecond
  unfold Instant.second at subsecond
  have hour : (instant.reading 0).hour < 24 := by
    unfold reading daySeconds
    dsimp only
    omega
  have minute : (instant.reading 0).minute < 60 := by
    unfold reading
    dsimp only
    omega
  have second : (instant.reading 0).second ≤ 60 := by
    unfold reading Instant.second daySeconds
    dsimp only
    omega
  have nanos : (instant.reading 0).nanos < Instant.second :=
    Nat.mod_lt _ (by decide)
  rw [scanTime_clockText hour minute second nanos ends noPoint]
  unfold reading Instant.second daySeconds
  dsimp only
  rw [Int.add_zero]
  split
  next leap =>
    simp only [Option.some.injEq, Prod.mk.injEq, TimeOfDay.mk.injEq,
      and_true]
    omega
  next =>
    simp only [Option.some.injEq, Prod.mk.injEq, TimeOfDay.mk.injEq,
      and_true]
    omega

/-- The day and the time of day of an instant make it up. -/
theorem ofClock?_reading (instant : Instant) :
    ofClock? (Date.ofDayNumber (instant.seconds / daySeconds))
        ⟨(instant.seconds % daySeconds).toNat, instant.nanos⟩ 0 =
      some instant := by
  obtain ⟨seconds, nanos, inRange, subsecond⟩ := instant
  have ofDay : ((seconds % daySeconds).toNat : Int) = seconds % daySeconds :=
    Int.toNat_of_nonneg (Int.emod_nonneg seconds (by decide))
  have whole :
      seconds / daySeconds * daySeconds +
          ((seconds % daySeconds).toNat : Int) - 0 =
        seconds := by
    rw [ofDay, Int.sub_zero, Int.mul_comm, Int.mul_ediv_add_emod]
  unfold ofClock?
  simp only [Date.toDayNumber_ofDayNumber, whole]
  exact dif_pos
    ⟨Date.isValid_ofDayNumber _, inRange, by decide, inRange, subsecond⟩

/-- An instant is read from its text. -/
theorem read?_toText (instant : Instant) :
    read? instant.toText = some instant := by
  have day :
      (instant.reading 0).dayNumber = instant.seconds / daySeconds := by
    unfold reading
    rw [Int.add_zero]
  have start (rest : List Char) : EndsNumber ('T' :: rest) :=
    endsNumber_cons rfl rest
  have universal : EndsNumber ['Z'] := endsNumber_cons rfl []
  have offset : scanOffset (Text.dropBlanks ['Z']) = some (0, []) := rfl
  unfold read? toText
  simp only [Reading.dateText, List.append_assoc, List.cons_append,
    scanDate_toText (Date.isValid_ofDayNumber _) (start _),
    scanTime_reading instant universal (by decide), offset, day,
    Option.bind_eq_bind, Option.bind_some]
  exact ofClock?_reading instant

end Instant

end BackupHistory
