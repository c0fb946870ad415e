import BackupHistory.Binary64.Basic

namespace BackupHistory.Binary64

/-!
# Shortest numeral of a number

A number is written by the shortest numeral that reads back as the number, and
of those by the nearest. For one, two, and up to seventeen digits the two
neighbours of the number on that decimal grid are tried, nearest first; the
first that reads back is taken. A number that no such numeral names is written
exactly, so every answer reads back.
-/

/-- A number written positionally or with a power of ten. -/
structure NumeralFormat where
  /-- The least power of the leading digit that is written positionally. -/
  leastPositional : Int
  /-- The greatest power of the leading digit that is written positionally. -/
  greatestPositional : Int

/--
Measured numbers are written positionally from a hundred-thousandth up to below
ten to the sixteenth, with at least one digit after the point.
-/
def measureFormat : NumeralFormat where
  leastPositional := -5
  greatestPositional := 15

/-- The numeral of significant digits whose first has the given power. -/
def NumeralFormat.arrange
    (format : NumeralFormat)
    (negative : Bool)
    (digits : List Digit)
    (leading : Int) :
    Numeral :=
  if format.leastPositional ≤ leading ∧
      leading ≤ format.greatestPositional then
    if leading < 0 then
      { negative := negative
        whole := 0
        fraction :=
          List.replicate (-leading - 1).toNat Digit.zero ++ digits
        exponent := none }
    else
      let size := leading.toNat + 1
      let padding := List.replicate (size - digits.length) Digit.zero
      let fraction := digits.drop size
      { negative := negative
        whole := Digit.appendTo 0 (digits.take size ++ padding)
        fraction := if fraction = [] then [Digit.zero] else fraction
        exponent := none }
  else
    { negative := negative
      whole := Digit.appendTo 0 (digits.take 1)
      fraction := digits.drop 1
      exponent := some leading }

/-- Zeros at the end of a digit list, taken off. -/
def dropTrailingZeros (digits : List Digit) : List Digit :=
  (digits.reverse.dropWhile (· == Digit.zero)).reverse

/-- The numeral of a coefficient at a power of ten, without needless zeros. -/
def measureNumeral
    (negative : Bool)
    (coefficient : Nat)
    (power : Int) :
    Numeral :=
  let digits := decimalDigits coefficient
  measureFormat.arrange negative (dropTrailingZeros digits)
    (power + digits.length - 1)

/-- Every nonzero number has a digit in this many decimal places. -/
def leadingPlaces : Nat :=
  400

/-- The power of ten of the leading digit of a nonzero number. -/
def leadingPower (number : Binary64) : Int :=
  let shifted :=
    number.units * Nat.pow 10 leadingPlaces / Nat.pow 2 unitPower
  (decimalDigits shifted).length - 1 - leadingPlaces

/-- The neighbours of a number on a decimal grid, the nearer one first. -/
def gridNeighbours (number : Binary64) (power : Int) : List Nat :=
  let numerator := number.units * Nat.pow 10 (-power).toNat
  let denominator := Nat.pow 2 unitPower * Nat.pow 10 power.toNat
  let below := numerator / denominator
  let nearest := roundQuotient numerator denominator
  [nearest, if nearest = below then below + 1 else below]

/-- The numerals that may be the shortest one, the preferred ones first. -/
def candidates (number : Binary64) : List Numeral :=
  (List.range 17).flatMap fun (count : Nat) =>
    let power := number.leadingPower - count
    (number.gridNeighbours power).map fun coefficient =>
      measureNumeral number.negative coefficient power

/-- The numeral of a number, digit for digit. -/
def exactNumeral (number : Binary64) : Numeral where
  negative := number.negative
  whole := number.units * Nat.pow 5 unitPower
  fraction := []
  exponent := some (-unitPower)

def zeroNumeral (negative : Bool) : Numeral :=
  measureFormat.arrange negative [Digit.zero] 0

/-- The shortest numeral that is read as the given number. -/
def toNumeral (number : Binary64) : Numeral :=
  if number.magnitude = 0 then
    zeroNumeral number.negative
  else
    (number.candidates.find? fun numeral =>
      decide (ofNumeral? numeral = some number)).getD number.exactNumeral

end BackupHistory.Binary64
