import BackupHistory.Json.Basic

namespace BackupHistory.Json

/-!
# Writing JSON values

The compact form has no blanks. The spread form puts every element and member
on a line of its own, two blanks deeper than its container. Strings are written
as they are but for quotes, backslashes and control characters.
-/

/-- The hexadecimal digit of a number below sixteen. -/
def hexDigit (number : Nat) : Char :=
  if number < 10 then
    Char.ofNat ('0'.toNat + number)
  else
    Char.ofNat ('a'.toNat + (number - 10))

/-- A character as it stands between the quotes of a string. -/
def escape (character : Char) : List Char :=
  if character = '"' then
    ['\\', '"']
  else if character = '\\' then
    ['\\', '\\']
  else if character = '\x08' then
    ['\\', 'b']
  else if character = '\x0c' then
    ['\\', 'f']
  else if character = '\n' then
    ['\\', 'n']
  else if character = '\r' then
    ['\\', 'r']
  else if character = '\t' then
    ['\\', 't']
  else if character < ' ' then
    ['\\', 'u', '0', '0', hexDigit (character.toNat / 16),
      hexDigit (character.toNat % 16)]
  else
    [character]

/-- A string; one without a text is written as half of a pair. -/
def stringText : Text → List Char
  | some text => '"' :: text.toList.flatMap escape ++ ['"']
  | none => ['"', '\\', 'u', 'd', '8', '0', '0', '"']

def boolText : Bool → List Char
  | true => ['t', 'r', 'u', 'e']
  | false => ['f', 'a', 'l', 's', 'e']

mutual

def compact : Json → List Char
  | .null => ['n', 'u', 'l', 'l']
  | .bool value => boolText value
  | .number numeral => numeral.toText
  | .string text => stringText text
  | .array elements => '[' :: compactElements elements ++ [']']
  | .object members => '{' :: compactMembers members ++ ['}']

def compactElements : List Json → List Char
  | [] => []
  | [last] => compact last
  | element :: next :: rest =>
      compact element ++ ',' :: compactElements (next :: rest)

def compactMembers : List (Text × Json) → List Char
  | [] => []
  | [(name, value)] => stringText name ++ ':' :: compact value
  | (name, value) :: next :: rest =>
      stringText name ++ ':' :: compact value ++
        ',' :: compactMembers (next :: rest)

end

/-- A line break and the blanks of a nesting depth. -/
def lineBreak (depth : Nat) : List Char :=
  '\n' :: List.replicate (2 * depth) ' '

mutual

/-- The spread form of a value at a nesting depth. -/
def spread (depth : Nat) : Json → List Char
  | .null => ['n', 'u', 'l', 'l']
  | .bool value => boolText value
  | .number numeral => numeral.toText
  | .string text => stringText text
  | .array [] => ['[', ']']
  | .array elements =>
      '[' :: spreadElements (depth + 1) elements ++
        lineBreak depth ++ [']']
  | .object [] => ['{', '}']
  | .object members =>
      '{' :: spreadMembers (depth + 1) members ++
        lineBreak depth ++ ['}']

def spreadElements (depth : Nat) : List Json → List Char
  | [] => []
  | [last] => lineBreak depth ++ spread depth last
  | element :: next :: rest =>
      lineBreak depth ++ spread depth element ++
        ',' :: spreadElements depth (next :: rest)

def spreadMembers (depth : Nat) : List (Text × Json) → List Char
  | [] => []
  | [(name, value)] =>
      lineBreak depth ++ stringText name ++ ':' :: ' ' ::
        spread depth value
  | (name, value) :: next :: rest =>
      lineBreak depth ++ stringText name ++ ':' :: ' ' ::
        spread depth value ++ ',' :: spreadMembers depth (next :: rest)

end

def compactText (value : Json) : String :=
  String.ofList (compact value)

def spreadText (value : Json) : String :=
  String.ofList (spread 0 value)

end BackupHistory.Json
