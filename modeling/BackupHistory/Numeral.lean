namespace BackupHistory

/-!
# Decimal numerals

A numeral is a number as it is written in decimal: a sign, a whole part, the
digits after the point and a power of ten. It keeps what a reader needs to know
about the spelling, namely whether a fraction or an exponent was written, and
it stands for one exact rational number.
-/

/-- One decimal digit. -/
abbrev Digit :=
  Fin 10

namespace Digit

/-- The digit of nothing. -/
def zero : Digit :=
  ⟨0, by decide⟩

def ofChar? (character : Char) : Option Digit :=
  if lower : '0' ≤ character ∧ character ≤ '9' then
    some ⟨character.toNat - '0'.toNat, by
      have upper : character.toNat ≤ 57 := lower.2
      have zero : '0'.toNat = 48 := rfl
      omega⟩
  else
    none

def toChar (digit : Digit) : Char :=
  Char.ofNat ('0'.toNat + digit.val)

/-- A written digit is read as itself. -/
@[simp] theorem ofChar?_toChar (digit : Digit) :
    ofChar? digit.toChar = some digit := by
  revert digit
  decide

/-- Append digits to a number, most significant digit first. -/
def appendTo (number : Nat) (digits : List Digit) : Nat :=
  digits.foldl (fun value digit => 10 * value + digit.val) number

end Digit

/-- The decimal digits of a number, most significant first and at least one. -/
def decimalDigits (number : Nat) : List Digit :=
  if number < 10 then
    [Fin.ofNat 10 number]
  else
    decimalDigits (number / 10) ++ [Fin.ofNat 10 number]

/-- The digits of a number stand for that number. -/
theorem Digit.appendTo_decimalDigits (number : Nat) :
    Digit.appendTo 0 (decimalDigits number) = number := by
  induction number using decimalDigits.induct with
  | case1 number small =>
      rw [decimalDigits]
      simp only [small, if_true, Digit.appendTo, List.foldl_cons,
        List.foldl_nil, Fin.ofNat]
      omega
  | case2 number large inductionHypothesis =>
      rw [decimalDigits]
      simp only [large, if_false]
      simp only [Digit.appendTo, List.foldl_append, List.foldl_cons,
        List.foldl_nil, Fin.ofNat] at inductionHypothesis ⊢
      rw [inductionHypothesis]
      omega

def decimalText (number : Nat) : List Char :=
  (decimalDigits number).map Digit.toChar

/-- A number as it is written in decimal. -/
structure Numeral where
  negative : Bool
  whole : Nat
  fraction : List Digit
  exponent : Option Int
  deriving Repr, DecidableEq

namespace Numeral

/-- The numeral of an integer, without fraction and exponent. -/
def ofInt (number : Int) : Numeral where
  negative := decide (number < 0)
  whole := number.natAbs
  fraction := []
  exponent := none

/-- All written digits read as one number. -/
def coefficient (numeral : Numeral) : Nat :=
  Digit.appendTo numeral.whole numeral.fraction

/-- The power of ten by which the coefficient is scaled. -/
def power (numeral : Numeral) : Int :=
  numeral.exponent.getD 0 - numeral.fraction.length

/--
The integer that a numeral writes.

A fraction, an exponent or a signed zero makes it a measured number, which is
no integer even where its value is whole.
-/
def toInt? (numeral : Numeral) : Option Int :=
  if numeral.fraction = [] ∧ numeral.exponent = none then
    if numeral.negative then
      if numeral.whole = 0 then
        none
      else
        some (-(numeral.whole : Int))
    else
      some numeral.whole
  else
    none

/-- The numeral of an integer writes that integer. -/
@[simp] theorem toInt?_ofInt (number : Int) :
    (ofInt number).toInt? = some number := by
  unfold toInt? ofInt
  by_cases below : number < 0
  · have nonzero : number.natAbs ≠ 0 := by omega
    simp only [and_self, if_true, below, decide_true, nonzero, if_false,
      Option.some.injEq]
    omega
  · simp only [and_self, if_true, below, decide_false, Bool.false_eq_true,
      if_false, Option.some.injEq]
    omega

/-- The text of a numeral, its exponent always with a sign. -/
def toText (numeral : Numeral) : List Char :=
  (if numeral.negative then ['-'] else []) ++
    decimalText numeral.whole ++
    (if numeral.fraction = [] then
      []
    else
      '.' :: numeral.fraction.map Digit.toChar) ++
    match numeral.exponent with
    | none => []
    | some power =>
        'e' :: (if power < 0 then '-' else '+') ::
          decimalText power.natAbs

end Numeral

def integerText (number : Int) : String :=
  String.ofList (Numeral.ofInt number).toText

end BackupHistory
