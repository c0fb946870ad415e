import BackupHistory.Binary64.Basic

namespace BackupHistory.Binary64

/-!
# Numbers with a fixed count of decimal places

The exact value of a number is rounded once to the wanted places, a half going
to the even neighbour. The sign is kept, also on a result that rounds to zero.
-/

/-- The text of a multiple of a power of one tenth. -/
def placesText (places multiple : Nat) : List Char :=
  let digits := decimalText multiple
  let padded := List.replicate (places + 1 - digits.length) '0' ++ digits
  let split := padded.length - places
  padded.take split ++ '.' :: padded.drop split

/-- A number with the given count of digits after the point. -/
def fixedText (places : Nat) (number : Binary64) : String :=
  let multiple :=
    roundQuotient (number.units * Nat.pow 10 places)
      (Nat.pow 2 unitPower)
  String.ofList <|
    (if number.negative then ['-'] else []) ++ placesText places multiple

end BackupHistory.Binary64
