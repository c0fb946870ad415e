import BackupHistory.Json.Basic

namespace BackupHistory.Json

/-!
# Reading fields out of a JSON value

A structure is read from an object by the names of its fields, in any order and
among members of other names, or from an array of its fields in order, of which
the last ones may be missing. Every reader answers nothing for a value that it
does not accept.

A value is read directly from its text, or from a copy that has been held until
its kind was known. A held value has been checked as a whole before, and its
names are accepted in two more spellings.
-/

/-- How a value comes to its reader. -/
inductive Passage where
  /-- From the text, where so many more containers may be nested. -/
  | direct (room : Nat)
  /-- From a copy that was checked as a whole. -/
  | held
  deriving Repr, DecidableEq

namespace Passage

/-- The passage of the values inside a container. -/
def inside : Passage → Passage
  | .direct room => .direct (room - 1)
  | .held => .held

/-- Whether a value may be held as a whole after such a passage. -/
def accepts (passage : Passage) (value : Json) : Bool :=
  match passage with
  | .direct room => value.isSound room
  | .held => true

end Passage

/-- The value of the only member of a name; repetition is not accepted. -/
def member? (members : List (Text × Json)) (name : String) :
    Option (Option Json) :=
  match members.filter (fun entry => entry.1 == some name) with
  | [] => some none
  | [(_, value)] => some (some value)
  | _ => none

/-- Whether every member has a name with a text. -/
def allNamed (members : List (Text × Json)) : Bool :=
  members.all fun entry => entry.1.isSome

/-- The fields of a structure in the order of their names, where present. -/
def fields? (names : List String) : Json → Option (List (Option Json))
  | .object members =>
      if allNamed members then
        names.mapM (member? members)
      else
        none
  | .array elements =>
      if elements.length ≤ names.length then
        some (elements.map some ++
          List.replicate (names.length - elements.length) none)
      else
        none
  | _ => none

/-- A field that must be present. -/
def required (decode : Json → Option α) : Option Json → Option α
  | none => none
  | some value => decode value

/-- A field that stands for a default where it is missing. -/
def orDefault (default : α) (decode : Json → Option α) :
    Option Json → Option α
  | none => some default
  | some value => decode value

/-- A value that may be absent, which `null` writes. -/
def nullable (decode : Json → Option α) : Json → Option (Option α)
  | .null => some none
  | value => (decode value).map some

def toText? : Json → Option String
  | .string text => text
  | _ => none

def toBool? : Json → Option Bool
  | .bool value => some value
  | _ => none

/-- An integer, written without fraction and exponent. -/
def toInt? : Json → Option Int
  | .number numeral => numeral.toInt?
  | _ => none

/-- An integer of sixty-four bits with a sign. -/
def toInt64? (value : Json) : Option Int64 := do
  let number ← value.toInt?
  if Int64.minValue.toInt ≤ number ∧ number ≤ Int64.maxValue.toInt then
    some (Int64.ofInt number)
  else
    none

/-- An integer of sixty-four bits without a sign. -/
def toUInt64? (value : Json) : Option UInt64 := do
  let number ← value.toInt?
  if 0 ≤ number ∧ number < UInt64.size then
    some (UInt64.ofNat number.toNat)
  else
    none

/-- A measured number, the nearest one to what is written. -/
def toBinary64? : Json → Option Binary64
  | .number numeral => Binary64.ofNumeral? numeral
  | _ => none

def toElements? : Json → Option (List Json)
  | .array elements => some elements
  | _ => none

/--
The name that a value writes, itself or as the only member of an object without
contents.
-/
def toName? (passage : Passage) : Json → Option String
  | .string text => text
  | .object [(name, .null)] => name
  | .object [(name, .object [])] =>
      match passage with
      | .direct _ => none
      | .held => name
  | _ => none

/-- The value among the given ones that a name stands for. -/
def ofName? (name : α → String) (values : List α) (text : String) :
    Option α :=
  values.find? fun value => name value == text

/-- A value written as one of a list of names. -/
def toNamed?
    (passage : Passage)
    (name : α → String)
    (values : List α)
    (value : Json) :
    Option α :=
  (value.toName? passage).bind (ofName? name values)

/--
The tag of a tagged structure and what remains of it.

In an object the tag is the only member of its name, in an array it comes
first.
-/
def splitTag? (tagName : String) : Json → Option (Json × Json)
  | .object members =>
      if allNamed members then
        match members.filter (fun entry => entry.1 == some tagName) with
        | [(_, tag)] =>
            some (tag, .object
              (members.filter fun entry => entry.1 != some tagName))
        | _ => none
      else
        none
  | .array (tag :: rest) => some (tag, .array rest)
  | _ => none

/-- A tag, written as a name or, in a held value, as a place in the list. -/
def toTag?
    (passage : Passage)
    (name : α → String)
    (values : List α) :
    Json → Option α
  | .string text => text.bind (ofName? name values)
  | .number numeral =>
      match passage with
      | .direct _ => none
      | .held =>
          numeral.toInt?.bind fun place =>
            if 0 ≤ place then values[place.toNat]? else none
  | _ => none

end BackupHistory.Json
