import BackupHistory.Json.Basic

namespace BackupHistory.Json

/-!
# Tokens of JSON text

A scanner reads text one character at a time and collects the tokens it has
completed. Its mode says what the characters read so far are part of. A number
ends with the first character that cannot continue it, and that character is
then read between tokens; every other token ends with a character of its own.
-/

/-- A token of JSON text. -/
inductive Token where
  | openArray
  | closeArray
  | openObject
  | closeObject
  | colon
  | comma
  | null
  | bool (value : Bool)
  | number (numeral : Numeral)
  | string (text : Text)
  deriving Repr, DecidableEq

/--
The characters of a string read so far, latest first.

The characters are absent once half of a surrogate pair stood alone; a leading
half waits for the escape that completes it.
-/
structure Spelling where
  characters : Option (List Char)
  leading : Option Nat
  deriving Repr, DecidableEq

namespace Spelling

/-- A string of which nothing has been read. -/
def start : Spelling :=
  ⟨some [], none⟩

/-- A string that cannot have a text any more. -/
def broken : Spelling :=
  ⟨none, none⟩

def push (spelling : Spelling) (character : Char) : Spelling :=
  match spelling.leading with
  | some _ => broken
  | none => ⟨spelling.characters.map (character :: ·), none⟩

/-- Append the UTF-16 unit that an escape names. -/
def pushUnit (spelling : Spelling) (unit : Nat) : Spelling :=
  if 0xD800 ≤ unit ∧ unit < 0xDC00 then
    match spelling.leading with
    | some _ => broken
    | none => ⟨spelling.characters, some unit⟩
  else if 0xDC00 ≤ unit ∧ unit < 0xE000 then
    match spelling.leading with
    | some leading =>
        let character :=
          Char.ofNat
            (0x10000 + (leading - 0xD800) * 0x400 + (unit - 0xDC00))
        ⟨spelling.characters.map (character :: ·), none⟩
    | none => broken
  else
    spelling.push (Char.ofNat unit)

/-- The text of a string that ends here. -/
def finish (spelling : Spelling) : Text :=
  match spelling.leading with
  | some _ => none
  | none => spelling.characters.map fun characters =>
      String.ofList characters.reverse

end Spelling

/-- What has been read of a number. -/
inductive NumeralPart where
  | sign
  | zero
  | whole
  | point
  | fraction
  | mark (powerNegative : Bool)
  | markSign (powerNegative : Bool)
  | power (powerNegative : Bool) (size : Nat)
  deriving Repr, DecidableEq

/-- A number being read; its fraction is held latest digit first. -/
structure PartialNumeral where
  negative : Bool
  whole : Nat
  fraction : List Digit
  part : NumeralPart
  deriving Repr, DecidableEq

namespace PartialNumeral

/-- A number of which only the sign has been read. -/
def start (negative : Bool) : PartialNumeral :=
  ⟨negative, 0, [], .sign⟩

/-- Read a digit, if one may stand here. -/
def digit? (number : PartialNumeral) (digit : Digit) :
    Option PartialNumeral :=
  match number.part with
  | .sign =>
      some { number with
        whole := digit.val
        part := if digit = Digit.zero then .zero else .whole }
  | .zero => none
  | .whole =>
      some { number with whole := 10 * number.whole + digit.val }
  | .point
  | .fraction =>
      some { number with
        fraction := digit :: number.fraction
        part := .fraction }
  | .mark negative
  | .markSign negative =>
      some { number with part := .power negative digit.val }
  | .power negative size =>
      some { number with part := .power negative (10 * size + digit.val) }

/-- Read a character that continues the number, if it does. -/
def step? (number : PartialNumeral) (character : Char) :
    Option PartialNumeral :=
  match Digit.ofChar? character with
  | some digit => number.digit? digit
  | none =>
      match number.part with
      | .zero
      | .whole =>
          if character = '.' then
            some { number with part := .point }
          else if character = 'e' ∨ character = 'E' then
            some { number with part := .mark false }
          else
            none
      | .fraction =>
          if character = 'e' ∨ character = 'E' then
            some { number with part := .mark false }
          else
            none
      | .mark _ =>
          if character = '+' then
            some { number with part := .markSign false }
          else if character = '-' then
            some { number with part := .markSign true }
          else
            none
      | _ => none

/-- The numeral, if the number may end here. -/
def finish? (number : PartialNumeral) : Option Numeral :=
  let written (exponent : Option Int) : Numeral :=
    { negative := number.negative
      whole := number.whole
      fraction := number.fraction.reverse
      exponent := exponent }
  match number.part with
  | .zero
  | .whole
  | .fraction => some (written none)
  | .power negative size =>
      some (written (some (if negative then -(size : Int) else size)))
  | _ => none

end PartialNumeral

/-- What the characters read last are part of. -/
inductive Mode where
  | between
  | word (rest : List Char) (token : Token)
  | number (pending : PartialNumeral)
  | string (spelling : Spelling)
  | escape (spelling : Spelling)
  | unit (spelling : Spelling) (count value : Nat)
  deriving Repr, DecidableEq

/-- The mode and the tokens completed so far, latest first. -/
structure Scanner where
  mode : Mode
  tokens : List Token
  deriving Repr, DecidableEq

namespace Scanner

def start : Scanner :=
  ⟨.between, []⟩

def isBlank (character : Char) : Bool :=
  character == ' ' || character == '\t' || character == '\n' ||
    character == '\r'

/-- The characters that end a string or must be escaped in one. -/
def isPlain (character : Char) : Bool :=
  character ≠ '"' && character ≠ '\\' && ' ' ≤ character

def escaped? : Char → Option Char
  | '"' => some '"'
  | '\\' => some '\\'
  | '/' => some '/'
  | 'b' => some '\x08'
  | 'f' => some '\x0c'
  | 'n' => some '\n'
  | 'r' => some '\r'
  | 't' => some '\t'
  | _ => none

def hexValue? (character : Char) : Option Nat :=
  if '0' ≤ character ∧ character ≤ '9' then
    some (character.toNat - '0'.toNat)
  else if 'a' ≤ character ∧ character ≤ 'f' then
    some (character.toNat - 'a'.toNat + 10)
  else if 'A' ≤ character ∧ character ≤ 'F' then
    some (character.toNat - 'A'.toNat + 10)
  else
    none

/-- Read a character that starts a token or stands between two. -/
def stepBetween (tokens : List Token) (character : Char) : Option Scanner :=
  if isBlank character then
    some ⟨.between, tokens⟩
  else
    match character with
    | '[' => some ⟨.between, .openArray :: tokens⟩
    | ']' => some ⟨.between, .closeArray :: tokens⟩
    | '{' => some ⟨.between, .openObject :: tokens⟩
    | '}' => some ⟨.between, .closeObject :: tokens⟩
    | ':' => some ⟨.between, .colon :: tokens⟩
    | ',' => some ⟨.between, .comma :: tokens⟩
    | '"' => some ⟨.string .start, tokens⟩
    | '-' => some ⟨.number (.start true), tokens⟩
    | 'n' => some ⟨.word ['u', 'l', 'l'] .null, tokens⟩
    | 't' => some ⟨.word ['r', 'u', 'e'] (.bool true), tokens⟩
    | 'f' => some ⟨.word ['a', 'l', 's', 'e'] (.bool false), tokens⟩
    | other => do
        let digit ← Digit.ofChar? other
        let pending ← (PartialNumeral.start false).digit? digit
        some ⟨.number pending, tokens⟩

/-- Read one character, unless no token can go on with it. -/
def step (scanner : Scanner) (character : Char) : Option Scanner :=
  match scanner.mode with
  | .between => stepBetween scanner.tokens character
  | .word rest token =>
      match rest with
      | [] => none
      | [last] =>
          if character = last then
            some ⟨.between, token :: scanner.tokens⟩
          else
            none
      | next :: later =>
          if character = next then
            some ⟨.word later token, scanner.tokens⟩
          else
            none
  | .number pending =>
      match pending.step? character with
      | some longer => some ⟨.number longer, scanner.tokens⟩
      | none =>
          match pending.finish? with
          | none => none
          | some numeral =>
              if (Digit.ofChar? character).isSome then
                none
              else
                stepBetween (.number numeral :: scanner.tokens) character
  | .string spelling =>
      if character = '"' then
        some ⟨.between, .string spelling.finish :: scanner.tokens⟩
      else if character = '\\' then
        some ⟨.escape spelling, scanner.tokens⟩
      else if isPlain character then
        some ⟨.string (spelling.push character), scanner.tokens⟩
      else
        none
  | .escape spelling =>
      if character = 'u' then
        some ⟨.unit spelling 0 0, scanner.tokens⟩
      else
        (escaped? character).map fun named =>
          ⟨.string (spelling.push named), scanner.tokens⟩
  | .unit spelling count value =>
      (hexValue? character).map fun digit =>
        let longer := 16 * value + digit
        if count = 3 then
          ⟨.string (spelling.pushUnit longer), scanner.tokens⟩
        else
          ⟨.unit spelling (count + 1) longer, scanner.tokens⟩

/-- The tokens in the order of the text, if the text may end here. -/
def finish? (scanner : Scanner) : Option (List Token) :=
  match scanner.mode with
  | .between => some scanner.tokens.reverse
  | .number pending =>
      pending.finish?.map fun numeral =>
        (.number numeral :: scanner.tokens).reverse
  | _ => none

end Scanner

/-- The tokens of a text, unless some character belongs to none. -/
def tokens? (text : List Char) : Option (List Token) :=
  (text.foldlM Scanner.step Scanner.start).bind Scanner.finish?

end BackupHistory.Json
