import BackupHistory.Binary64.Basic

namespace BackupHistory

/-!
# JSON values

A JSON value keeps the members of an object in the order they were written, all
repetitions included, and numbers as numerals. An escape may name half of a
surrogate pair; such a string has no characters to hold and is kept as a string
without text, because a reader may still have to skip it.

`IsSound` is what a value must satisfy to be held as a whole: every string has a
text, every number is in the range of binary64 and containers are not nested
too deeply.
-/

/-- The characters of a string, absent if an escape names half of a pair. -/
abbrev Json.Text :=
  Option String

/-- A JSON value. -/
inductive Json where
  | null
  | bool (value : Bool)
  | number (numeral : Numeral)
  | string (text : Json.Text)
  | array (elements : List Json)
  | object (members : List (Json.Text × Json))
  deriving Repr, Inhabited

namespace Json

def ofString (text : String) : Json :=
  .string (some text)

def ofInt (number : Int) : Json :=
  .number (Numeral.ofInt number)

def ofMembers (members : List (String × Json)) : Json :=
  .object (members.map fun (name, value) => (some name, value))

/-- An optional value, `null` when it is absent. -/
def ofOption (encode : α → Json) : Option α → Json
  | none => .null
  | some value => encode value

mutual

/--
Whether a value may be held as a whole, with at most the given count of
containers around any value inside it, its own container included.
-/
def isSound (depth : Nat) : Json → Bool
  | .null => true
  | .bool _ => true
  | .number numeral => (Binary64.ofNumeral? numeral).isSome
  | .string text => text.isSome
  | .array elements =>
      match depth with
      | 0 => false
      | deeper + 1 => allSound deeper elements
  | .object members =>
      match depth with
      | 0 => false
      | deeper + 1 => allMembersSound deeper members

/-- Whether every element may be held as a whole. -/
def allSound (depth : Nat) : List Json → Bool
  | [] => true
  | element :: rest => isSound depth element && allSound depth rest

/-- Whether every member has a sound name and may be held as a whole. -/
def allMembersSound (depth : Nat) : List (Text × Json) → Bool
  | [] => true
  | (name, value) :: rest =>
      name.isSome && isSound depth value && allMembersSound depth rest

end

end Json

end BackupHistory
