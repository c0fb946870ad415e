import BackupHistory.Numeral

namespace BackupHistory.Text

/-!
# Scanning text

A scan reads something at the start of a text and leaves the rest of the text,
or it does not find what it looks for.
-/

/-- What is read at the start of a text, and the text after it. -/
abbrev Scan (α : Type) :=
  List Char → Option (α × List Char)

/-- The digits at the start of a text, at most the given count of them. -/
def leadingDigits : Nat → List Char → List Digit × List Char
  | 0, text => ([], text)
  | _, [] => ([], [])
  | count + 1, character :: rest =>
      match Digit.ofChar? character with
      | none => ([], character :: rest)
      | some digit =>
          let (digits, after) := leadingDigits count rest
          (digit :: digits, after)

/-- Read at least one digit and at most the given count. -/
def scanDigits (count : Nat) : Scan (List Digit) := fun text =>
  match leadingDigits count text with
  | ([], _) => none
  | (digits, rest) => some (digits, rest)

/-- Read exactly the given count of digits as one number. -/
def scanFixed (count : Nat) : Scan Nat := fun text =>
  let (digits, rest) := leadingDigits count text
  if digits.length = count then
    some (Digit.appendTo 0 digits, rest)
  else
    none

def scanChar (expected : Char) (text : List Char) : Option (List Char) :=
  match text with
  | first :: rest => if first = expected then some rest else none
  | [] => none

def scanWord : List Char → List Char → Option (List Char)
  | [], text => some text
  | expected :: word, first :: rest =>
      if first = expected then
        scanWord word rest
      else
        none
  | _ :: _, [] => none

end BackupHistory.Text
