import BackupHistory.Binary64.Basic
import BackupHistory.Calendar
import BackupHistory.Text.Scan
import BackupHistory.Toml.Basic

namespace BackupHistory.Toml

open Text (Scan)

/-!
# Reading TOML

A document is read as statements, one on a line, with blanks and comments
between them. Arrays may run over lines, inline tables may not. Values are
nested and keys are dotted to a bounded depth.
-/

/-- The count of parts that a key may not reach, and of nested values. -/
def nestingLimit : Nat :=
  80

def isBlank (character : Char) : Bool :=
  character == ' ' || character == '\t'

/-- Text without the blanks that it starts with. -/
def dropBlanks (text : List Char) : List Char :=
  text.dropWhile isBlank

/-- Characters that may stand in a comment; a tab is the only control. -/
def isVisible (character : Char) : Bool :=
  character == '\t' || (' ' ≤ character && character ≠ '\x7f')

def lineBreak? : List Char → Option (List Char)
  | '\n' :: rest => some rest
  | '\r' :: '\n' :: rest => some rest
  | _ => none

/-- Text without the comment that it starts with. -/
def dropComment : List Char → List Char
  | '#' :: rest => rest.dropWhile isVisible
  | text => text

/-- Read a line break or the end of the text. -/
def lineEnd? : List Char → Option (List Char)
  | [] => some []
  | text => lineBreak? text

/-- Read what may stand after a statement on its line. -/
def scanTrailing (text : List Char) : Option (List Char) :=
  lineEnd? (dropComment (dropBlanks text))

/-- The character with a code, unless none has it. -/
def charOfCode? (code : Nat) : Option Char :=
  if code.isValidChar then
    some (Char.ofNat code)
  else
    none

def hexValue? (character : Char) : Option Nat :=
  if '0' ≤ character ∧ character ≤ '9' then
    some (character.toNat - '0'.toNat)
  else if 'a' ≤ character ∧ character ≤ 'f' then
    some (character.toNat - 'a'.toNat + 10)
  else if 'A' ≤ character ∧ character ≤ 'F' then
    some (character.toNat - 'A'.toNat + 10)
  else
    none

def hexNumber? (digits : List Char) : Option Nat :=
  digits.foldlM
    (fun number digit => (hexValue? digit).map (16 * number + ·)) 0

/-- Read the code of a character in exactly the given count of digits. -/
def scanCode (count : Nat) : Scan Char := fun text =>
  let digits := text.take count
  if digits.length = count then do
    let code ← hexNumber? digits
    let character ← charOfCode? code
    some (character, text.drop count)
  else
    none

def scanEscape : Scan Char
  | 'b' :: rest => some ('\x08', rest)
  | 't' :: rest => some ('\t', rest)
  | 'n' :: rest => some ('\n', rest)
  | 'f' :: rest => some ('\x0c', rest)
  | 'r' :: rest => some ('\r', rest)
  | '"' :: rest => some ('"', rest)
  | '\\' :: rest => some ('\\', rest)
  | 'u' :: rest => scanCode 4 rest
  | 'U' :: rest => scanCode 8 rest
  | _ => none

/-- Read a string of one line up to the closing quote, escapes replaced. -/
def scanBasic (fuel : Nat) (reversed : List Char) : Scan String :=
  fun text =>
    match fuel, text with
    | _, '"' :: rest => some (String.ofList reversed.reverse, rest)
    | fuel + 1, '\\' :: rest => do
        let (character, rest) ← scanEscape rest
        scanBasic fuel (character :: reversed) rest
    | fuel + 1, character :: rest =>
        if isVisible character then
          scanBasic fuel (character :: reversed) rest
        else
          none
    | _, _ => none

/-- Read a string of one line up to the closing quote, as it is. -/
def scanLiteral : Scan String := fun text =>
  let body := text.takeWhile fun character =>
    isVisible character && character ≠ '\x27'
  (Text.scanChar '\x27' (text.drop body.length)).map fun rest =>
    (String.ofList body, rest)

/-- Text without the blanks and line breaks that it starts with. -/
def dropBlankLines : List Char → List Char
  | ' ' :: rest
  | '\t' :: rest
  | '\n' :: rest
  | '\r' :: '\n' :: rest => dropBlankLines rest
  | text => text

/-- Text without one line break that it starts with. -/
def dropLineBreak (text : List Char) : List Char :=
  (lineBreak? text).getD text

/--
Read the quotes at the end of a string of several lines, or quotes inside it.

Up to two quotes are part of the string; three end it, and up to two before
these are part of it. The flag says whether the string has ended.
-/
def scanQuotes (quote : Char) (text : List Char) :
    Option (List Char × Bool × List Char) :=
  let count := (text.takeWhile (· == quote)).length
  let rest := text.drop count
  if count < 3 then
    some (List.replicate count quote, false, rest)
  else if count < 6 then
    some (List.replicate (count - 3) quote, true, rest)
  else
    none

/-- Read a string of several lines, with escapes or as it is. -/
def scanLines
    (quote : Char)
    (fuel : Nat)
    (reversed : List Char) :
    Scan String := fun text =>
  match fuel with
  | 0 => none
  | fuel + 1 =>
      match lineBreak? text, text with
      | some rest, _ => scanLines quote fuel ('\n' :: reversed) rest
      | none, [] => none
      | none, character :: rest =>
          if character = quote then do
            let (quotes, ended, rest) ← scanQuotes quote text
            if ended then
              some (String.ofList (quotes ++ reversed).reverse, rest)
            else
              scanLines quote fuel (quotes ++ reversed) rest
          else if character = '\\' ∧ quote = '"' then
            match lineBreak? (dropBlanks rest) with
            | some rest =>
                scanLines quote fuel reversed (dropBlankLines rest)
            | none => do
                let (character, rest) ← scanEscape rest
                scanLines quote fuel (character :: reversed) rest
          else if isVisible character then
            scanLines quote fuel (character :: reversed) rest
          else
            none

/-- Read a string in any of its four forms. -/
def scanString : Scan String := fun text =>
  match text with
  | '"' :: '"' :: '"' :: rest =>
      scanLines '"' (rest.length + 1) [] (dropLineBreak rest)
  | '"' :: rest => scanBasic rest.length [] rest
  | '\x27' :: '\x27' :: '\x27' :: rest =>
      scanLines '\x27' (rest.length + 1) [] (dropLineBreak rest)
  | '\x27' :: rest => scanLiteral rest
  | _ => none

def isKeyChar (character : Char) : Bool :=
  character.isAlphanum || character == '-' || character == '_'

def scanKeyPart : Scan String := fun text =>
  match text with
  | '"' :: rest => scanBasic rest.length [] rest
  | '\x27' :: rest => scanLiteral rest
  | _ =>
      match text.takeWhile isKeyChar with
      | [] => none
      | part => some (String.ofList part, text.dropWhile isKeyChar)

/-- Read a key and the blanks around its parts. -/
def scanKeyParts (fuel : Nat) : Scan (List String) := fun text =>
  match fuel with
  | 0 => none
  | fuel + 1 => do
      let (part, text) ← scanKeyPart (dropBlanks text)
      match dropBlanks text with
      | '.' :: rest =>
          let (parts, rest) ← scanKeyParts fuel rest
          some (part :: parts, rest)
      | rest => some ([part], rest)

def scanKey : Scan (Path × String) := fun text => do
  let (parts, rest) ← scanKeyParts (nestingLimit - 1) text
  let last ← parts.getLast?
  some ((parts.dropLast, last), rest)

/-- Read more digits, each perhaps after a single underscore. -/
def scanMoreDigits (digitValue? : Char → Option Nat) :
    Scan (List Nat)
  | '_' :: next :: rest => do
      let digit ← digitValue? next
      let (digits, rest) ← scanMoreDigits digitValue? rest
      some (digit :: digits, rest)
  | ['_'] => none
  | next :: rest =>
      match digitValue? next with
      | none => some ([], next :: rest)
      | some digit => do
          let (digits, rest) ← scanMoreDigits digitValue? rest
          some (digit :: digits, rest)
  | [] => some ([], [])

def scanGrouped (digitValue? : Char → Option Nat) : Scan (List Nat)
  | [] => none
  | first :: rest => do
      let digit ← digitValue? first
      let (digits, rest) ← scanMoreDigits digitValue? rest
      some (digit :: digits, rest)

/-- The number that digits write in a base. -/
def ofDigits (base : Nat) (digits : List Nat) : Nat :=
  digits.foldl (fun number digit => base * number + digit) 0

/-- The value of a digit of a base up to sixteen. -/
def digitBelow? (base : Nat) (character : Char) : Option Nat :=
  (hexValue? character).filter (· < base)

/-- An integer, if it is within sixty-four bits. -/
def ofInteger? (number : Int) : Option Toml :=
  if -(Int.pow 2 63) ≤ number ∧ number < Int.pow 2 63 then
    some (.integer number)
  else
    none

/-- Read an integer in the base that a letter after a zero names. -/
def scanBased (base : Nat) : Scan Toml := fun text => do
  let (digits, rest) ← scanGrouped (digitBelow? base) text
  let number ← ofInteger? (ofDigits base digits)
  some (number, rest)

/-- Read a sign; the flag says whether it is a minus. -/
def splitSign : List Char → Bool × List Char
  | '-' :: rest => (true, rest)
  | '+' :: rest => (false, rest)
  | text => (false, text)

/-- Read the digits of a whole number, which has no zero before others. -/
def scanWhole : Scan (List Nat) := fun text =>
  match text with
  | '0' :: rest => some ([0], rest)
  | _ => scanGrouped (digitBelow? 10) text

/-- Read the digits of a fraction, if a point announces one. -/
def scanFraction : Scan (Option (List Nat)) := fun text =>
  match text with
  | '.' :: rest =>
      (scanGrouped (digitBelow? 10) rest).map fun (digits, rest) =>
        (some digits, rest)
  | _ => some (none, text)

/-- Read a power of ten, if its mark announces one. -/
def scanPower : Scan (Option Int) := fun text =>
  let power (rest : List Char) : Option (Option Int × List Char) := do
    let (negative, rest) := splitSign rest
    let (digits, rest) ← scanGrouped (digitBelow? 10) rest
    let size : Int := ofDigits 10 digits
    some (some (if negative then -size else size), rest)
  match text with
  | 'e' :: rest => power rest
  | 'E' :: rest => power rest
  | _ => some (none, text)

/-- Read a number in decimal; a positive one must not be past the range. -/
def scanDecimal : Scan Toml := fun text => do
  let (negative, text) := splitSign text
  let (whole, text) ← scanWhole text
  let (fraction, text) ← scanFraction text
  let (power, text) ← scanPower text
  match fraction, power with
  | none, none =>
      let size : Int := ofDigits 10 whole
      let number ← ofInteger? (if negative then -size else size)
      some (number, text)
  | _, _ =>
      let places := fraction.getD []
      let number :=
        Binary64.ofDecimal? negative (ofDigits 10 (whole ++ places))
          (power.getD 0 - places.length)
      if number.isSome || negative then
        some (.measure, text)
      else
        none

/-- Read the names of the numbers that are no amounts. -/
def scanSpecial : Scan Toml := fun text =>
  let unsigned := (splitSign text).2
  let named :=
    (Text.scanWord ['i', 'n', 'f'] unsigned).or
      (Text.scanWord ['n', 'a', 'n'] unsigned)
  named.map fun rest => (.measure, rest)

def scanNumber : Scan Toml := fun text =>
  match text with
  | '0' :: 'x' :: rest => scanBased 16 rest
  | '0' :: 'o' :: rest => scanBased 8 rest
  | '0' :: 'b' :: rest => scanBased 2 rest
  | _ => (scanSpecial text).or (scanDecimal text)

def scanDate (text : List Char) : Option (List Char) := do
  let (year, text) ← Text.scanFixed 4 text
  let text ← Text.scanChar '-' text
  let (month, text) ← Text.scanFixed 2 text
  let text ← Text.scanChar '-' text
  let (day, text) ← Text.scanFixed 2 text
  if Date.IsValid ⟨year, month, day⟩ then
    some text
  else
    none

def scanClock (text : List Char) : Option (List Char) := do
  let (hour, text) ← Text.scanFixed 2 text
  let text ← Text.scanChar ':' text
  let (minute, text) ← Text.scanFixed 2 text
  let text ← Text.scanChar ':' text
  let (second, text) ← Text.scanFixed 2 text
  if hour < 24 ∧ minute < 60 ∧ second ≤ 60 then
    match text with
    | '.' :: rest =>
        (Text.scanDigits rest.length rest).map Prod.snd
    | _ => some text
  else
    none

/-- Read an offset from universal time, if there is one. -/
def scanOffset (text : List Char) : Option (List Char) :=
  let signed (rest : List Char) : Option (List Char) := do
    let (hour, rest) ← Text.scanFixed 2 rest
    let rest ← Text.scanChar ':' rest
    let (minute, rest) ← Text.scanFixed 2 rest
    if hour < 24 ∧ minute < 60 then some rest else none
  match text with
  | 'Z' :: rest => some rest
  | 'z' :: rest => some rest
  | '+' :: rest => signed rest
  | '-' :: rest => signed rest
  | _ => some text

/-- Whether a time of day starts here: two digits and a colon. -/
def startsClock (text : List Char) : Bool :=
  match Text.scanFixed 2 text with
  | some (_, ':' :: _) => true
  | _ => false

/-- Whether a date starts here: four digits and a hyphen. -/
def startsDate (text : List Char) : Bool :=
  match Text.scanFixed 4 text with
  | some (_, '-' :: _) => true
  | _ => false

/-- Read a date, a time of day or both. -/
def scanMoment : Scan Toml := fun text =>
  let after :=
    if startsDate text then do
      let rest ← scanDate text
      match rest with
      | delimiter :: clock =>
          if (delimiter == 'T' || delimiter == 't' || delimiter == ' ') &&
              startsClock clock then
            (scanClock clock).bind scanOffset
          else
            some rest
      | [] => some []
    else
      scanClock text
  after.map fun rest => (.moment, rest)

/-- Text without the blanks, line breaks and comments that it starts with. -/
def dropSpace (fuel : Nat) (text : List Char) : Option (List Char) :=
  match fuel with
  | 0 => none
  | fuel + 1 =>
      let text := dropBlanks text
      match lineBreak? text, text with
      | some rest, _ => dropSpace fuel rest
      | none, '#' :: _ =>
          (lineBreak? (dropComment text)).bind (dropSpace fuel)
      | none, _ => some text

mutual

/-- Read a value at so many levels below the limit of nesting. -/
def scanValue (fuel depth : Nat) : Scan Toml := fun text =>
  match fuel with
  | 0 => none
  | fuel + 1 =>
      match text with
      | [] => none
      | first :: rest =>
          if first = '"' ∨ first = '\x27' then
            (scanString text).map fun (content, rest) =>
              (.string content, rest)
          else if first = '[' then
            match depth with
            | 0 => none
            | depth + 1 =>
                (scanElements fuel depth rest).map fun (elements, rest) =>
                  (.array elements, rest)
          else if first = '{' then
            match depth with
            | 0 => none
            | depth + 1 => do
                let (entries, rest) ← scanEntries fuel depth rest
                let table ← inlineTable? entries
                some (table, rest)
          else if first = 't' then
            (Text.scanWord ['t', 'r', 'u', 'e'] text).map fun rest =>
              (.bool true, rest)
          else if first = 'f' then
            (Text.scanWord ['f', 'a', 'l', 's', 'e'] text).map fun rest =>
              (.bool false, rest)
          else if startsDate text ∨ startsClock text then
            scanMoment text
          else
            scanNumber text

def scanElements (fuel depth : Nat) : Scan (List Toml) := fun text =>
  match fuel with
  | 0 => none
  | fuel + 1 => do
      match ← dropSpace (text.length + 1) text with
      | ']' :: rest => some ([], rest)
      | text =>
          let (element, text) ← scanValue fuel depth text
          match ← dropSpace (text.length + 1) text with
          | ',' :: rest =>
              let (elements, rest) ← scanElements fuel depth rest
              some (element :: elements, rest)
          | ']' :: rest => some ([element], rest)
          | _ => none

/-- Read the entries of an inline table up to the closing brace. -/
def scanEntries (fuel depth : Nat) :
    Scan (List (Path × String × Toml)) := fun text =>
  match fuel with
  | 0 => none
  | fuel + 1 =>
      match dropBlanks text with
      | '}' :: rest => some ([], rest)
      | text => scanEntriesFrom fuel depth text

/-- Read at least one entry of an inline table up to the closing brace. -/
def scanEntriesFrom (fuel depth : Nat) :
    Scan (List (Path × String × Toml)) := fun text =>
  match fuel with
  | 0 => none
  | fuel + 1 => do
      let ((path, key), text) ← scanKey text
      let text ← Text.scanChar '=' text
      let (value, text) ← scanValue fuel depth (dropBlanks text)
      match dropBlanks text with
      | ',' :: rest =>
          let (entries, rest) ← scanEntriesFrom fuel depth rest
          some ((path, key, value) :: entries, rest)
      | '}' :: rest => some ([(path, key, value)], rest)
      | _ => none

end

/-- Read the brackets of a header and what they hold. -/
def scanHeader : Scan Statement := fun text =>
  match text with
  | '[' :: '[' :: rest => do
      let ((path, key), rest) ← scanKey rest
      let rest ← Text.scanWord [']', ']'] rest
      some (.repeatedHeader path key, rest)
  | '[' :: rest => do
      let ((path, key), rest) ← scanKey rest
      let rest ← Text.scanChar ']' rest
      some (.header path key, rest)
  | _ => none

def scanEntry : Scan Statement := fun text => do
  let ((path, key), text) ← scanKey text
  let text ← Text.scanChar '=' text
  let text := dropBlanks text
  let (value, text) ←
    scanValue (2 * text.length + 1) (nestingLimit - 1) text
  some (.entry path key value, text)

def statements? (fuel : Nat) (text : List Char) :
    Option (List Statement) :=
  match fuel with
  | 0 => none
  | fuel + 1 =>
      match dropBlanks text with
      | [] => some []
      | '#' :: rest =>
          (lineEnd? (dropComment ('#' :: rest))).bind (statements? fuel)
      | '\n' :: rest => statements? fuel rest
      | '\r' :: '\n' :: rest => statements? fuel rest
      | '[' :: rest => do
          let (statement, rest) ← scanHeader ('[' :: rest)
          let rest ← scanTrailing rest
          let later ← statements? fuel rest
          some (statement :: later)
      | text => do
          let (statement, rest) ← scanEntry text
          let rest ← scanTrailing rest
          let later ← statements? fuel rest
          some (statement :: later)

/-- Text without the byte order mark that it may start with. -/
def dropMark : List Char → List Char
  | '\uFEFF' :: rest => rest
  | text => text

def read? (text : String) : Option Toml := do
  let text := dropMark text.toList
  let statements ← statements? (text.length + 1) text
  ofStatements? statements

end BackupHistory.Toml
