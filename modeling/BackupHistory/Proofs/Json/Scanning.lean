import BackupHistory.Json.Token
import BackupHistory.Json.Writer
import Mathlib.Data.Fintype.Basic
import Mathlib.Tactic.FinCases

namespace BackupHistory

/-!
# Scanning what is written

The compact text of a value is scanned into the tokens that spell the value. A
number is the only token that does not end by itself: it ends with a comma or a
closing bracket, which is then scanned as if the number had been complete.
-/

section Digits

/-- A number is written as a zero or starts with another digit. -/
theorem decimalDigits_eq_cons (number : Nat) :
    ∃ first rest,
      decimalDigits number = first :: rest ∧
        (first = Digit.zero → rest = [] ∧ number = 0) := by
  induction number using decimalDigits.induct with
  | case1 number small =>
      rw [decimalDigits, if_pos small]
      refine ⟨_, [], rfl, fun isZero => ⟨rfl, ?_⟩⟩
      have remainder : number % 10 = 0 := congrArg Fin.val isZero
      omega
  | case2 number large inductionHypothesis =>
      obtain ⟨first, rest, digits, leading⟩ := inductionHypothesis
      rw [decimalDigits, if_neg large, digits]
      refine ⟨first, _, rfl, fun isZero => ?_⟩
      have noMore := (leading isZero).2
      omega

end Digits

/-- What is written of a numeral after its sign. -/
def Numeral.unsignedText (numeral : Numeral) : List Char :=
  decimalText numeral.whole ++
    (if numeral.fraction = [] then
      []
    else
      '.' :: numeral.fraction.map Digit.toChar) ++
    match numeral.exponent with
    | none => []
    | some power =>
        'e' :: (if power < 0 then '-' else '+') ::
          decimalText power.natAbs

theorem Numeral.toText_eq (numeral : Numeral) :
    numeral.toText =
      (if numeral.negative then ['-'] else []) ++ numeral.unsignedText := by
  have grouped (sign whole fraction power : List Char) :
      sign ++ whole ++ fraction ++ power =
        sign ++ (whole ++ fraction ++ power) := by
    simp only [List.append_assoc]
  exact grouped _ _ _ _

namespace Json

namespace PartialNumeral

/-- Read the characters of a number one after another. -/
def read? (number : PartialNumeral) (text : List Char) :
    Option PartialNumeral :=
  text.foldlM step? number

theorem read?_append (number : PartialNumeral) (first second : List Char) :
    number.read? (first ++ second) =
      (number.read? first).bind fun longer => longer.read? second :=
  List.foldlM_append

theorem read?_cons
    (number : PartialNumeral)
    (character : Char)
    (rest : List Char) :
    number.read? (character :: rest) =
      (number.step? character).bind fun longer => longer.read? rest :=
  List.foldlM_cons

theorem step?_toChar (number : PartialNumeral) (digit : Digit) :
    number.step? digit.toChar = number.digit? digit := by
  unfold step?
  rw [Digit.ofChar?_toChar]

section Parts

variable (negative : Bool) (whole : Nat) (fraction : List Digit)

theorem read?_whole (digits : List Digit) :
    read? ⟨negative, whole, fraction, .whole⟩ (digits.map Digit.toChar) =
      some
        ⟨negative, Digit.appendTo whole digits, fraction, .whole⟩ := by
  induction digits generalizing whole with
  | nil => rfl
  | cons digit rest inductionHypothesis =>
      rw [List.map_cons, read?_cons, step?_toChar]
      exact inductionHypothesis (10 * whole + digit.val)

theorem read?_fraction (digits : List Digit) :
    read? ⟨negative, whole, fraction, .fraction⟩
        (digits.map Digit.toChar) =
      some
        ⟨negative, whole, digits.reverse ++ fraction, .fraction⟩ := by
  induction digits generalizing fraction with
  | nil => rfl
  | cons digit rest inductionHypothesis =>
      rw [List.map_cons, read?_cons, step?_toChar, List.reverse_cons,
        List.append_assoc]
      exact inductionHypothesis (digit :: fraction)

theorem read?_power
    (powerNegative : Bool)
    (size : Nat)
    (digits : List Digit) :
    read? ⟨negative, whole, fraction, .power powerNegative size⟩
        (digits.map Digit.toChar) =
      some
        ⟨negative, whole, fraction,
          .power powerNegative (Digit.appendTo size digits)⟩ := by
  induction digits generalizing size with
  | nil => rfl
  | cons digit rest inductionHypothesis =>
      rw [List.map_cons, read?_cons, step?_toChar]
      exact inductionHypothesis (10 * size + digit.val)

/-- A whole number is read up to where it may end or go on with a point. -/
theorem read?_decimalText (number : Nat) :
    ∃ part,
      (start negative).read? (decimalText number) =
          some ⟨negative, number, [], part⟩ ∧
        (part = .zero ∨ part = .whole) := by
  obtain ⟨first, rest, digits, leading⟩ := decimalDigits_eq_cons number
  have value := Digit.appendTo_decimalDigits number
  unfold decimalText
  rw [digits] at value ⊢
  rw [List.map_cons, read?_cons, step?_toChar]
  by_cases isZero : first = Digit.zero
  · obtain ⟨rfl, rfl⟩ := leading isZero
    subst isZero
    exact ⟨.zero, rfl, .inl rfl⟩
  · refine ⟨.whole, ?_, .inr rfl⟩
    rw [Digit.appendTo, List.foldl_cons, Nat.mul_zero, Nat.zero_add] at value
    unfold start digit?
    simp only [isZero, ↓reduceIte, Option.bind_some]
    rw [read?_whole, Digit.appendTo, value]

/-- The fraction of a number is read after its point. -/
theorem read?_fractionText
    {part : NumeralPart}
    (isPart : part = .zero ∨ part = .whole)
    {digits : List Digit}
    (present : digits ≠ []) :
    read? ⟨negative, whole, [], part⟩ ('.' :: digits.map Digit.toChar) =
      some ⟨negative, whole, digits.reverse, .fraction⟩ := by
  obtain ⟨first, rest, rfl⟩ := List.exists_cons_of_ne_nil present
  have point :
      step? ⟨negative, whole, [], part⟩ '.' =
        some ⟨negative, whole, [], .point⟩ := by
    rcases isPart with rfl | rfl <;> rfl
  rw [read?_cons, point, Option.bind_some, List.map_cons, read?_cons,
    step?_toChar, List.reverse_cons]
  exact read?_fraction negative whole [first] rest

/-- The power of ten of a number is read after its mark and its sign. -/
theorem read?_powerText
    {part : NumeralPart}
    (isPart : part = .zero ∨ part = .whole ∨ part = .fraction)
    (power : Int) :
    read? ⟨negative, whole, fraction, part⟩
        ('e' :: (if power < 0 then '-' else '+') ::
          decimalText power.natAbs) =
      some
        ⟨negative, whole, fraction,
          .power (decide (power < 0)) power.natAbs⟩ := by
  obtain ⟨first, rest, digits, _⟩ := decimalDigits_eq_cons power.natAbs
  have value := Digit.appendTo_decimalDigits power.natAbs
  have mark :
      step? ⟨negative, whole, fraction, part⟩ 'e' =
        some ⟨negative, whole, fraction, .mark false⟩ := by
    rcases isPart with rfl | rfl | rfl <;> rfl
  have sign :
      step? ⟨negative, whole, fraction, .mark false⟩
          (if power < 0 then '-' else '+') =
        some
          ⟨negative, whole, fraction, .markSign (decide (power < 0))⟩ := by
    by_cases below : power < 0
    · rw [if_pos below, decide_eq_true below]
      rfl
    · rw [if_neg below, decide_eq_false below]
      rfl
  unfold decimalText
  rw [digits] at value ⊢
  rw [read?_cons, mark, Option.bind_some, read?_cons, sign,
    Option.bind_some, List.map_cons, read?_cons, step?_toChar]
  rw [Digit.appendTo, List.foldl_cons, Nat.mul_zero, Nat.zero_add] at value
  unfold digit?
  simp only [Option.bind_some]
  rw [read?_power, Digit.appendTo, value]

end Parts

/-- What is written of a numeral after its sign is read as that numeral. -/
theorem read?_unsignedText (numeral : Numeral) :
    ∃ pending,
      (start numeral.negative).read? numeral.unsignedText = some pending ∧
        pending.finish? = some numeral := by
  obtain ⟨negative, whole, fraction, exponent⟩ := numeral
  obtain ⟨part, wholeRead, isPart⟩ := read?_decimalText negative whole
  obtain ⟨nextPart, fractionRead, isNextPart⟩ :
      ∃ nextPart,
        read? ⟨negative, whole, [], part⟩
            (if fraction = [] then
              []
            else
              '.' :: fraction.map Digit.toChar) =
          some ⟨negative, whole, fraction.reverse, nextPart⟩ ∧
        (nextPart = .zero ∨ nextPart = .whole ∨ nextPart = .fraction) := by
    by_cases absent : fraction = []
    · rw [if_pos absent, absent]
      exact ⟨part, rfl, isPart.imp_right .inl⟩
    · rw [if_neg absent]
      exact
        ⟨.fraction, read?_fractionText negative whole isPart absent,
          .inr (.inr rfl)⟩
  unfold Numeral.unsignedText
  rw [read?_append, read?_append, wholeRead, Option.bind_some,
    fractionRead, Option.bind_some]
  cases exponent with
  | none =>
      refine ⟨_, rfl, ?_⟩
      rcases isNextPart with rfl | rfl | rfl <;>
        simp [finish?]
  | some power =>
      refine ⟨_, read?_powerText negative whole _ isNextPart power, ?_⟩
      have signed :
          (if power < 0 then -(power.natAbs : Int) else power.natAbs) =
            power := by
        split <;> omega
      simp only [finish?, List.reverse_reverse, decide_eq_true_eq, signed]

end PartialNumeral

/-- A scanner that has completed the given tokens, latest first, or completes
them with the next comma or closing bracket or with the end of the text. -/
structure Scanner.Settled
    (scanner : Scanner)
    (tokens : List Token) :
    Prop where
  finish? : scanner.finish? = some tokens.reverse
  step :
    ∀ character ∈ [',', ']', '}'],
      scanner.step character = stepBetween tokens character

/-- A text that is scanned into tokens between two tokens and is complete. -/
def Completes (text : List Char) (tokens : List Token) : Prop :=
  ∀ before,
    text.foldlM Scanner.step ⟨.between, before⟩ =
      some ⟨.between, tokens.reverse ++ before⟩

/-- A text that is scanned into tokens, the last of which may go on. -/
def Scans (text : List Char) (tokens : List Token) : Prop :=
  ∀ before,
    ∃ scanner,
      text.foldlM Scanner.step ⟨.between, before⟩ = some scanner ∧
        scanner.Settled (tokens.reverse ++ before)

section Texts

variable {first second : List Char} {firstTokens secondTokens : List Token}

theorem Completes.scans (completes : Completes first firstTokens) :
    Scans first firstTokens := by
  intro before
  exact ⟨_, completes before, ⟨rfl, fun _ _ => rfl⟩⟩

theorem Completes.append
    (completes : Completes first firstTokens)
    (next : Completes second secondTokens) :
    Completes (first ++ second) (firstTokens ++ secondTokens) := by
  intro before
  rw [List.foldlM_append, completes before, List.reverse_append,
    List.append_assoc]
  exact next _

theorem Completes.append_scans
    (completes : Completes first firstTokens)
    (next : Scans second secondTokens) :
    Scans (first ++ second) (firstTokens ++ secondTokens) := by
  intro before
  rw [List.foldlM_append, completes before, List.reverse_append,
    List.append_assoc]
  exact next _

/-- What follows a settled text is scanned as if that had been complete. -/
theorem Scans.foldlM_append
    (scans : Scans first firstTokens)
    {character : Char}
    (ends : character ∈ [',', ']', '}'])
    (before : List Token) :
    (first ++ character :: second).foldlM Scanner.step ⟨.between, before⟩ =
      (character :: second).foldlM Scanner.step
        ⟨.between, firstTokens.reverse ++ before⟩ := by
  obtain ⟨scanner, scanned, settled⟩ := scans before
  rw [List.foldlM_append, scanned]
  change List.foldlM _ scanner _ = _
  rw [List.foldlM_cons, List.foldlM_cons, settled.step character ends]
  rfl

theorem Scans.append
    (scans : Scans first firstTokens)
    {character : Char}
    (ends : character ∈ [',', ']', '}'])
    (next : Scans (character :: second) secondTokens) :
    Scans (first ++ character :: second) (firstTokens ++ secondTokens) := by
  intro before
  rw [scans.foldlM_append ends, List.reverse_append, List.append_assoc]
  exact next _

theorem Scans.append_completes
    (scans : Scans first firstTokens)
    {character : Char}
    (ends : character ∈ [',', ']', '}'])
    (next : Completes (character :: second) secondTokens) :
    Completes (first ++ character :: second)
      (firstTokens ++ secondTokens) := by
  intro before
  rw [scans.foldlM_append ends, List.reverse_append, List.append_assoc]
  exact next _

end Texts

section Strings

theorem hexValue?_hexDigit {value : Nat} (fits : value < 16) :
    Scanner.hexValue? (hexDigit value) = some value := by
  have all :
      ∀ value : Fin 16,
        Scanner.hexValue? (hexDigit value.val) = some value.val := by
    decide
  exact all ⟨value, fits⟩

/-- A character is written as a letter that names it, as its number or as it
is. -/
theorem escape_cases (character : Char) :
    (∃ letter,
      letter ≠ 'u' ∧ escape character = ['\\', letter] ∧
        Scanner.escaped? letter = some character) ∨
      (character < ' ' ∧
        escape character =
          ['\\', 'u', '0', '0', hexDigit (character.toNat / 16),
            hexDigit (character.toNat % 16)]) ∨
      ((character ≠ '"' ∧ character ≠ '\\' ∧ ' ' ≤ character) ∧
        escape character = [character]) := by
  unfold escape
  split_ifs with isQuote isBackslash isBackspace isFeed isLine isReturn isTab
    isControl
  · subst isQuote
    exact .inl ⟨'"', by decide, rfl, rfl⟩
  · subst isBackslash
    exact .inl ⟨'\\', by decide, rfl, rfl⟩
  · subst isBackspace
    exact .inl ⟨'b', by decide, rfl, rfl⟩
  · subst isFeed
    exact .inl ⟨'f', by decide, rfl, rfl⟩
  · subst isLine
    exact .inl ⟨'n', by decide, rfl, rfl⟩
  · subst isReturn
    exact .inl ⟨'r', by decide, rfl, rfl⟩
  · subst isTab
    exact .inl ⟨'t', by decide, rfl, rfl⟩
  · exact .inr (.inl ⟨isControl, rfl⟩)
  · exact .inr (.inr ⟨⟨isQuote, isBackslash, Char.not_lt.1 isControl⟩, rfl⟩)

/-- A control character is the character of its number. -/
theorem pushUnit_of_control
    {character : Char}
    (isControl : character < ' ')
    (characters : List Char) :
    Spelling.pushUnit ⟨some characters, none⟩ character.toNat =
      ⟨some (character :: characters), none⟩ := by
  have small : character.toNat < 32 := isControl
  unfold Spelling.pushUnit
  rw [if_neg (by omega), if_neg (by omega), Char.ofNat_toNat]
  rfl

/-- A character as it is written in a string is read as that character. -/
theorem foldlM_escape
    (character : Char)
    (characters : List Char)
    (tokens : List Token) :
    (escape character).foldlM Scanner.step
        ⟨.string ⟨some characters, none⟩, tokens⟩ =
      some ⟨.string ⟨some (character :: characters), none⟩, tokens⟩ := by
  rcases escape_cases character with
    ⟨letter, notUnit, written, named⟩ | ⟨isControl, written⟩ |
      ⟨⟨notQuote, notBackslash, visible⟩, written⟩
  · rw [written]
    simp [Scanner.step, notUnit, named, Spelling.push]
  · have small : character.toNat < 32 := isControl
    have digits :
        16 * (character.toNat / 16) + character.toNat % 16 =
          character.toNat :=
      Nat.div_add_mod ..
    have zero : Scanner.hexValue? '0' = some 0 := rfl
    rw [written]
    simp [Scanner.step, zero, hexValue?_hexDigit, digits,
      Nat.mod_lt, show character.toNat / 16 < 16 by omega,
      pushUnit_of_control isControl]
  · rw [written]
    simp [Scanner.step, Scanner.isPlain, Spelling.push, notQuote,
      notBackslash, visible]

/-- A text is read as its characters, the latest first. -/
theorem foldlM_escape_all (text characters : List Char)
    (tokens : List Token) :
    (text.flatMap escape).foldlM Scanner.step
        ⟨.string ⟨some characters, none⟩, tokens⟩ =
      some
        ⟨.string ⟨some (text.reverse ++ characters), none⟩, tokens⟩ := by
  induction text generalizing characters with
  | nil => rfl
  | cons character rest inductionHypothesis =>
      rw [List.flatMap_cons, List.foldlM_append, foldlM_escape]
      change List.foldlM _ _ _ = _
      rw [inductionHypothesis, List.reverse_cons, List.append_assoc]
      rfl

theorem completes_stringText (text : Text) :
    Completes (stringText text) [.string text] := by
  intro before
  cases text with
  | none => rfl
  | some text =>
      have opened :
          Scanner.step ⟨.between, before⟩ '"' =
            some ⟨.string ⟨some [], none⟩, before⟩ :=
        rfl
      have quoted :
          stringText (some text) =
            '"' :: (text.toList.flatMap escape ++ ['"']) :=
        rfl
      rw [quoted, List.foldlM_cons, opened]
      change List.foldlM _ _ _ = _
      rw [List.foldlM_append, foldlM_escape_all]
      simp [Scanner.step, Spelling.finish]

end Strings

section Values

/-- A character that a number goes on with belongs to the number. -/
theorem foldlM_number
    {pending longer : PartialNumeral}
    {text : List Char}
    (read : pending.read? text = some longer)
    (tokens : List Token) :
    text.foldlM Scanner.step ⟨.number pending, tokens⟩ =
      some ⟨.number longer, tokens⟩ := by
  induction text generalizing pending with
  | nil =>
      obtain rfl := Option.some.inj read
      rfl
  | cons character rest inductionHypothesis =>
      rw [PartialNumeral.read?_cons] at read
      obtain ⟨next, isNext, read⟩ := Option.bind_eq_some_iff.1 read
      have step :
          Scanner.step ⟨.number pending, tokens⟩ character =
            some ⟨.number next, tokens⟩ := by
        simp only [Scanner.step, isNext]
      rw [List.foldlM_cons, step]
      exact inductionHypothesis read

/-- A number that may end is complete with a comma or a closing bracket. -/
theorem settled_number
    {pending : PartialNumeral}
    {numeral : Numeral}
    (finished : pending.finish? = some numeral)
    (tokens : List Token) :
    Scanner.Settled ⟨.number pending, tokens⟩
      (.number numeral :: tokens) := by
  refine ⟨?_, ?_⟩
  · simp [Scanner.finish?, finished]
  · intro character ends
    have notDigit : Digit.ofChar? character = none := by
      fin_cases ends <;> rfl
    have stops : pending.step? character = none := by
      obtain ⟨negative, whole, fraction, part⟩ := pending
      unfold PartialNumeral.step?
      rw [notDigit]
      revert ends character
      cases part <;> simp
    simp [Scanner.step, stops, finished, notDigit]

/-- A digit between two tokens starts a number. -/
theorem step_toChar (digit : Digit) (tokens : List Token) :
    Scanner.step ⟨.between, tokens⟩ digit.toChar =
      ((PartialNumeral.start false).digit? digit).map
        fun pending => ⟨.number pending, tokens⟩ := by
  fin_cases digit <;> rfl

theorem scans_number (numeral : Numeral) :
    Scans numeral.toText [.number numeral] := by
  intro before
  obtain ⟨pending, read, finished⟩ :=
    PartialNumeral.read?_unsignedText numeral
  refine ⟨_, ?_, settled_number finished before⟩
  rw [Numeral.toText_eq]
  cases negative : numeral.negative with
  | true =>
      rw [negative] at read
      exact foldlM_number read before
  | false =>
      rw [negative] at read
      obtain ⟨first, rest, digits, _⟩ :=
        decimalDigits_eq_cons numeral.whole
      rw [if_neg Bool.false_ne_true, List.nil_append]
      unfold Numeral.unsignedText decimalText at read ⊢
      rw [digits, List.map_cons, List.cons_append, List.cons_append] at read ⊢
      rw [PartialNumeral.read?_cons, PartialNumeral.step?_toChar] at read
      obtain ⟨next, isNext, read⟩ := Option.bind_eq_some_iff.1 read
      rw [List.foldlM_cons, step_toChar, isNext]
      exact foldlM_number read before

mutual

/-- The tokens that spell a value. -/
def tokens : Json → List Token
  | .null => [.null]
  | .bool value => [.bool value]
  | .number numeral => [.number numeral]
  | .string text => [.string text]
  | .array elements => .openArray :: elementTokens elements ++ [.closeArray]
  | .object members => .openObject :: memberTokens members ++ [.closeObject]

def elementTokens : List Json → List Token
  | [] => []
  | [last] => tokens last
  | element :: next :: rest =>
      tokens element ++ .comma :: elementTokens (next :: rest)

def memberTokens : List (Text × Json) → List Token
  | [] => []
  | [(name, value)] => .string name :: .colon :: tokens value
  | (name, value) :: next :: rest =>
      .string name :: .colon :: tokens value ++
        .comma :: memberTokens (next :: rest)

end

mutual

theorem scans_compact (value : Json) : Scans value.compact value.tokens := by
  match value with
  | .null => exact Completes.scans fun _ => rfl
  | .bool value => cases value <;> exact Completes.scans fun _ => rfl
  | .number numeral => exact scans_number numeral
  | .string text => exact (completes_stringText text).scans
  | .array elements =>
      have opened : Completes ['['] [.openArray] := fun _ => rfl
      have closed : Completes [']'] [.closeArray] := fun _ => rfl
      by_cases empty : elements = []
      · subst empty
        exact (opened.append closed).scans
      · have inside :=
          (scans_compactElements elements empty).append_completes
            (by decide) closed
        exact (opened.append inside).scans
  | .object members =>
      have opened : Completes ['\x7b'] [.openObject] := fun _ => rfl
      have closed : Completes ['\x7d'] [.closeObject] := fun _ => rfl
      by_cases empty : members = []
      · subst empty
        exact (opened.append closed).scans
      · have inside :=
          (scans_compactMembers members empty).append_completes
            (by decide) closed
        exact (opened.append inside).scans

theorem scans_compactElements
    (elements : List Json)
    (inhabited : elements ≠ []) :
    Scans (compactElements elements) (elementTokens elements) := by
  match elements with
  | [] => exact absurd rfl inhabited
  | [last] => exact scans_compact last
  | element :: next :: rest =>
      have comma : Completes [','] [.comma] := fun _ => rfl
      have others :=
        scans_compactElements (next :: rest) (List.cons_ne_nil next rest)
      exact (scans_compact element).append (by decide)
        (comma.append_scans others)

theorem scans_compactMembers
    (members : List (Text × Json))
    (inhabited : members ≠ []) :
    Scans (compactMembers members) (memberTokens members) := by
  have colon : Completes [':'] [.colon] := fun _ => rfl
  match members with
  | [] => exact absurd rfl inhabited
  | [(name, value)] =>
      exact (completes_stringText name).append_scans
        (colon.append_scans (scans_compact value))
  | (name, value) :: next :: rest =>
      have comma : Completes [','] [.comma] := fun _ => rfl
      have member :=
        (completes_stringText name).append_scans
          (colon.append_scans (scans_compact value))
      have others :=
        scans_compactMembers (next :: rest) (List.cons_ne_nil next rest)
      have all := member.append (by decide) (comma.append_scans others)
      unfold compactMembers memberTokens
      simpa using all

end

/-- The text of a value is scanned into the tokens that spell it. -/
theorem tokens?_compact (value : Json) :
    tokens? value.compact = some value.tokens := by
  obtain ⟨scanner, scanned, settled⟩ := scans_compact value []
  unfold tokens? Scanner.start
  rw [scanned, Option.bind_some, settled.finish?, List.append_nil,
    List.reverse_reverse]

end Values

end Json

end BackupHistory
