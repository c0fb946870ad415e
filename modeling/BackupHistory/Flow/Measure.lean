import BackupHistory.Binary64.Fixed

namespace BackupHistory

/-!
# Sizes, durations and snapshot ids for people

Sizes are shown in the largest binary unit that they reach, durations by their
largest units, and snapshot ids by their beginning.
-/

namespace Measure

/-- The binary units of size, largest first, with the powers of two they are. -/
def sizeUnits : List (Nat × String) :=
  [(40, "TiB"), (30, "GiB"), (20, "MiB"), (10, "KiB")]

/-- A quotient shown with a count of places, after rounding to binary64. -/
def quotientText (places numerator denominator : Nat) : String :=
  match Binary64.ofQuotient? false numerator denominator with
  | some quotient => quotient.fixedText places
  | none => "inf"

/-- A size in the largest unit that it reaches, bytes being the last. -/
def sizeText (bytes : Nat) : String :=
  match sizeUnits.find? fun entry => Nat.pow 2 entry.1 ≤ bytes with
  | some (power, name) =>
      quotientText 2 bytes (Nat.pow 2 power) ++ " " ++ name
  | none => toString bytes ++ " B"

/-- A duration in milliseconds; a negative one counts as none. -/
def durationText (millis : Int) : String :=
  let millis := millis.toNat
  if millis < 1000 then
    toString millis ++ "ms"
  else
    let seconds := millis / 1000
    let hours := seconds / 3600
    let minutes := seconds % 3600 / 60
    let rest := seconds % 60
    if 0 < hours then
      toString hours ++ "h" ++ toString minutes ++ "m" ++
        toString rest ++ "s"
    else if 0 < minutes then
      toString minutes ++ "m" ++ toString rest ++ "s"
    else
      quotientText 1 millis 1000 ++ "s"

/-- A snapshot id by its first eight characters. -/
def shortSnapshotId (id : String) : String :=
  String.ofList (id.toList.take 8)

/-- A fraction as a percentage with two places. -/
def percentText (fraction : Binary64) : String :=
  match fraction.scale? 100 with
  | some percent => percent.fixedText 2
  | none => if fraction.negative then "-inf" else "inf"

/-- The least and the greatest count of milliseconds that is told apart. -/
def millisLimit : Int :=
  Int.pow 2 63

/-- The whole milliseconds of a count of seconds, kept within the limit. -/
def secondsToMillis (seconds : Binary64) : Int :=
  match seconds.scale? 1000 with
  | some millis => max (-millisLimit) (min (millisLimit - 1) millis.truncate)
  | none => if seconds.negative then -millisLimit else millisLimit - 1

end Measure

end BackupHistory
