import BackupHistory.Numeral

namespace BackupHistory

/-!
# Finite binary64 numbers

A measured quantity is a finite IEEE 754 binary64 number. It is held as a sign
and the bits of its magnitude, so that every finite number has one form and the
next larger magnitude is the next bit pattern. All arithmetic goes through the
exact value: a result is computed as a quotient of natural numbers and rounded
once, to the nearest number and to an even bit pattern on a tie.

The infinities and the patterns that are no number are left out, since no text
of a log reads as one of them. So every quantity is equal to itself, and what is
said of operations is said of those with finite quantities. An infinity would be
compared like any other number; a pattern that is no number would not, as it
differs even from itself.
-/

/-- The magnitude bits that no finite number reaches. -/
def Binary64.infinityBits : Nat :=
  2047 * Nat.pow 2 52

/-- A finite binary64 number: its sign and the bits of its magnitude. -/
structure Binary64 where
  negative : Bool
  magnitude : Nat
  finite : magnitude < Binary64.infinityBits
  deriving Repr, DecidableEq

/-- The nearest natural number to a quotient, the even one on a tie. -/
def roundQuotient (numerator denominator : Nat) : Nat :=
  let quotient := numerator / denominator
  let remainder := numerator % denominator
  if 2 * remainder < denominator then
    quotient
  else if denominator < 2 * remainder then
    quotient + 1
  else
    quotient + quotient % 2

namespace Binary64

/-- The exponent of two of the smallest positive number, negated. -/
def unitPower : Nat :=
  1074

/-- The magnitude as a multiple of the smallest positive number. -/
def units (number : Binary64) : Nat :=
  let field := number.magnitude / Nat.pow 2 52
  let fraction := number.magnitude % Nat.pow 2 52
  if field = 0 then
    fraction
  else
    (Nat.pow 2 52 + fraction) * Nat.pow 2 (field - 1)

/--
The bits of the nearest magnitude to a quotient.

The quotient is brought to fifty-three significant bits; a significand that
rounding carries to fifty-four bits is the next binade's first pattern, since
patterns are consecutive. The result may lie past the finite patterns.
-/
def nearestBits (numerator denominator : Nat) : Nat :=
  let scaled := numerator * Nat.pow 2 unitPower
  let whole := scaled / denominator
  let shift := if whole < Nat.pow 2 53 then 0 else whole.log2 - 52
  shift * Nat.pow 2 52 +
    roundQuotient scaled (denominator * Nat.pow 2 shift)

/-- The nearest number to a signed quotient, unless it is past the range. -/
def ofQuotient?
    (negative : Bool)
    (numerator denominator : Nat) :
    Option Binary64 :=
  if inRange : nearestBits numerator denominator < infinityBits then
    some ⟨negative, nearestBits numerator denominator, inRange⟩
  else
    none

/-- Zero, with the sign it was written with. -/
def zero (negative : Bool) : Binary64 :=
  ⟨negative, 0, by decide⟩

/-- Powers of ten past this bound are past every finite magnitude. -/
def decimalBound : Int :=
  400

/--
The nearest number to a decimal, unless it is past the range.

A decimal past the bound is settled by its power alone, so a long exponent
costs nothing.
-/
def ofDecimal?
    (negative : Bool)
    (coefficient : Nat)
    (power : Int) :
    Option Binary64 :=
  if coefficient = 0 then
    some (zero negative)
  else if decimalBound < power then
    none
  else if power + coefficient.log2 + 1 < -decimalBound then
    some (zero negative)
  else
    ofQuotient? negative
      (coefficient * Nat.pow 10 power.toNat) (Nat.pow 10 (-power).toNat)

/-- The nearest number to a numeral, unless it is past the range. -/
def ofNumeral? (numeral : Numeral) : Option Binary64 :=
  ofDecimal? numeral.negative numeral.coefficient numeral.power

/-- The number without the sign of a zero, which carries no amount. -/
def amount (number : Binary64) : Binary64 :=
  if number.magnitude = 0 then
    zero false
  else
    number

/-- The product with a natural number, unless it is past the range. -/
def scale? (factor : Nat) (number : Binary64) : Option Binary64 :=
  ofQuotient? number.negative
    (number.units * factor) (Nat.pow 2 unitPower)

/-- The whole part of a number, its fraction dropped. -/
def truncate (number : Binary64) : Int :=
  let whole : Int := number.units / Nat.pow 2 unitPower
  if number.negative then
    -whole
  else
    whole

end Binary64

end BackupHistory
