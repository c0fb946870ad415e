import BackupHistory.Text.Lines

namespace BackupHistory.Text

/-!
# Lines of joined bytes

Bytes that stop at the end of a line may be followed by any others: the lines
of both stay what they are. So a stream can be cut in front of any of its lines,
and whole lines can be written in between.
-/

/-- Bytes that stop where a line ends, or none at all. -/
def EndsLine (bytes : List UInt8) : Prop :=
  bytes = [] ∨ bytes.getLast? = some lineFeed

/-- Bytes all of whose lines are UTF-8. -/
def IsLegible (bytes : List UInt8) : Prop :=
  ∀ line ∈ lines bytes, (decode? line).isSome = true

/-- Bytes with whole lines of a sort written between their lines. -/
inductive Interlined (isExtra : List UInt8 → Bool) (bytes : List UInt8) :
    List UInt8 → Prop where
  | none : Interlined isExtra bytes bytes
  | more {first added second : List UInt8} :
      Interlined isExtra bytes (first ++ second) →
      EndsLine first →
      EndsLine added →
      (∀ line ∈ lines added, isExtra line = true) →
      Interlined isExtra bytes (first ++ (added ++ second))

section Cuts

variable {bytes first : List UInt8}

/-- After a line feed the lines start afresh. -/
theorem linesFrom_append_lineFeed (reversed first second : List UInt8) :
    linesFrom reversed (first ++ lineFeed :: second) =
      linesFrom reversed (first ++ [lineFeed]) ++ lines second := by
  induction first generalizing reversed with
  | nil => rfl
  | cons byte rest inductionHypothesis =>
      simp only [List.cons_append, linesFrom, inductionHypothesis]
      split <;> rfl

theorem lines_append (ends : EndsLine first) (second : List UInt8) :
    lines (first ++ second) = lines first ++ lines second := by
  rcases ends with rfl | isLast
  · rfl
  · obtain ⟨start, rfl⟩ := List.getLast?_eq_some_iff.1 isLast
    rw [List.append_assoc]
    exact linesFrom_append_lineFeed [] start second

/-- A carriage return belongs to a line unless a line feed follows it. -/
example : lines [97, 13, 10, 13, 98] = [[97], [13, 98]] := by decide

theorem EndsLine.append
    {second : List UInt8}
    (firstEnds : EndsLine first)
    (secondEnds : EndsLine second) :
    EndsLine (first ++ second) := by
  rcases secondEnds with rfl | isLast
  · rwa [List.append_nil]
  · exact .inr (by rw [List.getLast?_append, isLast]; rfl)

/-- A line with lines behind it has been ended, and what follows is theirs. -/
theorem exists_ended_of_linesFrom
    {reversed line : List UInt8}
    {later : List (List UInt8)}
    (isLines : linesFrom reversed bytes = line :: later)
    (goesOn : later ≠ []) :
    ∃ ended rest,
      bytes = ended ++ rest ∧
        ended.getLast? = some lineFeed ∧
        linesFrom reversed ended = [line] ∧
        lines rest = later := by
  induction bytes generalizing reversed with
  | nil =>
      unfold linesFrom at isLines
      split at isLines
      next => cases isLines
      next => exact absurd (List.cons.inj isLines).2.symm goesOn
  | cons byte bytes inductionHypothesis =>
      unfold linesFrom at isLines
      split at isLines
      next isFeed =>
          obtain ⟨rfl, rfl⟩ := List.cons.inj isLines
          subst isFeed
          exact ⟨[lineFeed], bytes, rfl, rfl, rfl, rfl⟩
      next notFeed =>
          obtain ⟨ended, rest, rfl, isLast, isLine, isRest⟩ :=
            inductionHypothesis isLines
          refine ⟨byte :: ended, rest, rfl, ?_, ?_, isRest⟩
          · rw [List.getLast?_cons, isLast]
            rfl
          · rw [linesFrom, if_neg notFeed, isLine]

/-- A stream can be cut in front of any of its lines. -/
theorem exists_cut
    {earlier later : List (List UInt8)}
    (isLines : lines bytes = earlier ++ later)
    (goesOn : later ≠ []) :
    ∃ first second,
      bytes = first ++ second ∧
        EndsLine first ∧
        lines first = earlier ∧
        lines second = later := by
  induction earlier generalizing bytes with
  | nil => exact ⟨[], bytes, rfl, .inl rfl, rfl, isLines⟩
  | cons line earlier inductionHypothesis =>
      have others : earlier ++ later ≠ [] :=
        List.append_ne_nil_of_right_ne_nil earlier goesOn
      obtain ⟨ended, rest, rfl, isLast, isLine, isRest⟩ :=
        exists_ended_of_linesFrom isLines others
      obtain ⟨first, second, rfl, ends, isEarlier, isLater⟩ :=
        inductionHypothesis isRest
      have endsHere : EndsLine ended := .inr isLast
      have onlyLine : lines ended = [line] := isLine
      refine ⟨ended ++ first, second, (List.append_assoc ..).symm,
        endsHere.append ends, ?_, isLater⟩
      calc
        lines (ended ++ first) = lines ended ++ lines first :=
          lines_append endsHere first
        _ = [line] ++ earlier := by rw [onlyLine, isEarlier]

/-- An illegible stream is cut in front of the first line that is no text. -/
theorem exists_cut_of_not_isLegible (illegible : ¬ IsLegible bytes) :
    ∃ first second line later,
      bytes = first ++ second ∧
        EndsLine first ∧
        IsLegible first ∧
        lines second = line :: later ∧
        decode? line = none := by
  let isBroken (line : List UInt8) : Bool := (decode? line).isNone
  have broken : ((lines bytes).find? isBroken).isSome = true := by
    simpa [isBroken, IsLegible, List.find?_isSome] using illegible
  obtain ⟨line, found⟩ := Option.isSome_iff_exists.1 broken
  obtain ⟨isLine, earlier, later, isLines, sound⟩ :=
    List.find?_eq_some_iff_append.1 found
  obtain ⟨first, second, rfl, ends, rfl, isLater⟩ :=
    exists_cut isLines (List.cons_ne_nil line later)
  refine ⟨first, second, line, later, rfl, ends, ?_, isLater,
    Option.isNone_iff_eq_none.1 isLine⟩
  intro other member
  simpa [isBroken, Option.isSome_iff_ne_none] using sound other member

end Cuts

end BackupHistory.Text
