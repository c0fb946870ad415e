import BackupHistory.Proofs.Follower.Course
import BackupHistory.Proofs.Replay
import BackupHistory.Proofs.Text.Lines
import Mathlib.Data.List.TakeWhile

namespace BackupHistory

/-!
# Replaying a log line by line

What a replay does with a line depends on the ledger alone and not on what has
been counted, so a log can be replayed in parts that end where a line ends.
Lines without an event can be written in between: blank ones leave no trace
and others are counted as skipped. A line that is no text ends the replay where
the lines before it have led. `Replay.GoesByLines` says so of all logs, and
`Replay.goesByLines` is the main statement.
-/

namespace Ledger

/-- What an action does if it is an event. -/
def outcomesOf (ledger : Ledger) : Action → List Outcome
  | .ingest event => [ledger.ingest event]
  | _ => []

/-- What events do, one after another. -/
def outcomesAlong (ledger : Ledger) (events : List Event) : List Outcome :=
  along outcomesOf ledger (events.map .ingest)

/-- The calls of listeners that events make, one after another. -/
def noticesAlong (ledger : Ledger) (events : List Event) : List Notice :=
  along noticesOf ledger (events.map .ingest)

theorem changesAlong_nil (ledger : Ledger) : ledger.changesAlong [] = [] :=
  rfl

theorem changesAlong_cons
    (ledger : Ledger)
    (event : Event)
    (rest : List Event) :
    ledger.changesAlong (event :: rest) =
      (ledger.ingest event).change.toList ++
        (ledger.ingest event).ledger.changesAlong rest :=
  rfl

theorem outcomesAlong_cons
    (ledger : Ledger)
    (event : Event)
    (rest : List Event) :
    ledger.outcomesAlong (event :: rest) =
      ledger.ingest event ::
        (ledger.ingest event).ledger.outcomesAlong rest :=
  rfl

theorem noticesAlong_append (ledger : Ledger) (first second : List Event) :
    ledger.noticesAlong (first ++ second) =
      ledger.noticesAlong first ++
        (ledger.ingestAll first).noticesAlong second := by
  unfold noticesAlong
  rw [List.map_append, along_append, performAll_map_ingest]

end Ledger

namespace Replay

/-- Whether a line is a text that holds nothing but blanks. -/
def isBlank (line : List UInt8) : Bool :=
  (Text.decode? line).any fun text => Text.isAllBlank text.toList

/-- Whether a line is a text with something on it that is no event. -/
def isMalformed (line : List UInt8) : Bool :=
  (Text.decode? line).any fun text =>
    !Text.isAllBlank text.toList && (Event.read? text).isNone

/-- The calls of listeners that the replay of a log makes, in their order. -/
def notices (ledger : Ledger) (bytes : List UInt8) : List Notice :=
  ledger.noticesAlong (eventsOf (Text.lines bytes))

/-- Two replays as one, the later of which began where the other ended. -/
def followedBy (earlier later : Replay) : Replay where
  ledger := later.ledger
  changes := earlier.changes ++ later.changes
  events := earlier.events + later.events
  applied := earlier.applied + later.applied
  skipped := earlier.skipped + later.skipped

/-- A replay that has skipped so many lines more. -/
def skipping (count : Nat) (replay : Replay) : Replay :=
  { replay with skipped := replay.skipped + count }

/-- How replaying a log goes by its lines. -/
structure GoesByLines (ledger : Ledger) : Prop where
  /-- Logs that are joined behind a line are replayed one after the other. -/
  append :
    ∀ first second,
      Text.EndsLine first →
      Text.IsLegible first →
      let earlier := (read ledger first).1
      let later := read earlier.ledger second
      (read ledger first).2 = true ∧
        read ledger (first ++ second) =
          (earlier.followedBy later.1, later.2) ∧
        notices ledger (first ++ second) =
          notices ledger first ++ notices earlier.ledger second
  /-- Blank lines between the others make no difference. -/
  interlined_blank :
    ∀ bytes other,
      Text.Interlined isBlank bytes other →
      read ledger other = read ledger bytes ∧
        notices ledger other = notices ledger bytes
  /-- Lines between the others that write no event are only counted. -/
  interlined_malformed :
    ∀ bytes other,
      Text.Interlined isMalformed bytes other →
      (∃ count,
        read ledger other =
          ((read ledger bytes).1.skipping count, (read ledger bytes).2)) ∧
        notices ledger other = notices ledger bytes
  /-- What is ingested are the events of the lines, one after another. -/
  ingests :
    ∀ bytes,
      let replay := (read ledger bytes).1
      let events := eventsOf (Text.lines bytes)
      replay.ledger = ledger.ingestAll events ∧
        replay.changes = ledger.changesAlong events
  /-- In a replay to the end each line is counted for what it is. -/
  counts :
    ∀ bytes,
      (read ledger bytes).2 = true →
      let replay := (read ledger bytes).1
      let events := eventsOf (Text.lines bytes)
      replay.events = events.length ∧
        replay.events + replay.skipped =
          (Text.lines bytes).countP (fun line => !isBlank line) ∧
        replay.applied =
          (ledger.outcomesAlong events).countP fun outcome =>
            outcome.change.isSome
  /-- A line that is no text ends the replay, as those before it leave it. -/
  stops :
    ∀ bytes,
      ¬ Text.IsLegible bytes →
      ∃ first second line later,
        bytes = first ++ second ∧
          Text.EndsLine first ∧
          Text.IsLegible first ∧
          Text.lines second = line :: later ∧
          Text.decode? line = none ∧
          read ledger bytes = ((read ledger first).1, false) ∧
          notices ledger bytes = notices ledger first

section Texts

variable {text : String}

theorem readText_of_event
    {event : Event}
    (writes : eventOf? text = some event)
    (replay : Replay) :
    replay.readText text = replay.ingest event := by
  unfold eventOf? at writes
  unfold readText
  split at writes
  next => cases writes
  next written =>
      rw [if_neg written, writes]

/-- A text without an event is passed over, and counted unless it is blank. -/
theorem readText_of_silent
    (silent : eventOf? text = none)
    (replay : Replay) :
    replay.readText text =
      replay.skipping (if Text.isAllBlank text.toList then 0 else 1) := by
  unfold eventOf? at silent
  unfold readText
  split at silent
  next blank =>
      rw [if_pos blank, if_pos blank]
      rfl
  next written =>
      rw [if_neg written, if_neg written, silent]
      rfl

/-- A line with an event is neither blank nor malformed. -/
theorem isBlank_and_isMalformed_of_event
    {line : List UInt8}
    {event : Event}
    (isText : Text.decode? line = some text)
    (writes : eventOf? text = some event) :
    isBlank line = false ∧ isMalformed line = false := by
  unfold eventOf? at writes
  split at writes
  next => cases writes
  next written =>
      simp [isBlank, isMalformed, isText, written, writes]

/-- A text line without an event is malformed unless it is blank. -/
theorem isMalformed_of_silent
    {line : List UInt8}
    (isText : Text.decode? line = some text)
    (silent : eventOf? text = none) :
    isMalformed line = !isBlank line := by
  unfold eventOf? at silent
  split at silent
  next blank => simp [isBlank, isMalformed, isText, blank]
  next written => simp [isBlank, isMalformed, isText, written, silent]

theorem isBlank_of_decode?
    {line : List UInt8}
    (isText : Text.decode? line = some text) :
    isBlank line = Text.isAllBlank text.toList := by
  unfold isBlank
  rw [isText]
  rfl

end Texts

section Parts

theorem followedBy_start (replay : Replay) :
    replay.followedBy (start replay.ledger) = replay := by
  simp only [followedBy, start, List.append_nil, Nat.add_zero]

theorem readText_followedBy (earlier later : Replay) (text : String) :
    (earlier.followedBy later).readText text =
      earlier.followedBy (later.readText text) := by
  cases writes : eventOf? text with
  | none =>
      simp only [readText_of_silent writes, skipping, followedBy,
        Nat.add_assoc]
  | some event =>
      simp only [readText_of_event writes, ingest, followedBy,
        List.append_assoc, Nat.add_assoc]

/-- What has been read does not change how the next lines are read. -/
theorem readLines_followedBy
    (earlier later : Replay)
    (lines : List (List UInt8)) :
    (earlier.followedBy later).readLines lines =
      (earlier.followedBy (later.readLines lines).1,
        (later.readLines lines).2) := by
  induction lines generalizing later with
  | nil => rfl
  | cons line rest inductionHypothesis =>
      unfold readLines
      cases Text.decode? line with
      | none => rfl
      | some text =>
          simp only [readText_followedBy, inductionHypothesis]

theorem skipping_skipping (first second : Nat) (replay : Replay) :
    (replay.skipping first).skipping second =
      replay.skipping (first + second) := by
  simp only [skipping, Nat.add_assoc]

/-- Lines that were skipped earlier are skipped in all. -/
theorem skipping_start_followedBy
    (ledger : Ledger)
    (count : Nat)
    (replay : Replay) :
    ((start ledger).skipping count).followedBy replay =
      replay.skipping count := by
  simp only [followedBy, skipping, start, List.nil_append, Nat.zero_add]
  rw [Nat.add_comm]

theorem readLines_skipping
    (count : Nat)
    (replay : Replay)
    (lines : List (List UInt8)) :
    (replay.skipping count).readLines lines =
      ((replay.readLines lines).1.skipping count,
        (replay.readLines lines).2) := by
  rw [← skipping_start_followedBy replay.ledger, readLines_followedBy,
    skipping_start_followedBy]

/-- Behind lines that are texts the others are read. -/
theorem readLines_append
    {first : List (List UInt8)}
    (legible : ∀ line ∈ first, (Text.decode? line).isSome = true)
    (replay : Replay)
    (second : List (List UInt8)) :
    replay.readLines (first ++ second) =
        (replay.readLines first).1.readLines second ∧
      (replay.readLines first).2 = true := by
  induction first generalizing replay with
  | nil => exact ⟨rfl, rfl⟩
  | cons line rest inductionHypothesis =>
      obtain ⟨isText, restLegible⟩ := List.forall_mem_cons.1 legible
      obtain ⟨text, isText⟩ := Option.isSome_iff_exists.1 isText
      simp only [List.cons_append, readLines, isText]
      exact inductionHypothesis restLegible (replay.readText text)

theorem eventsOf_append
    {first : List (List UInt8)}
    (legible : ∀ line ∈ first, (Text.decode? line).isSome = true)
    (second : List (List UInt8)) :
    eventsOf (first ++ second) = eventsOf first ++ eventsOf second := by
  induction first with
  | nil => rfl
  | cons line rest inductionHypothesis =>
      obtain ⟨isText, restLegible⟩ := List.forall_mem_cons.1 legible
      obtain ⟨text, isText⟩ := Option.isSome_iff_exists.1 isText
      simp only [List.cons_append, eventsOf, isText,
        inductionHypothesis restLegible, List.append_assoc]

end Parts

section Counts

/-- The lines that are read, those before the first that is no text. -/
def heard (lines : List (List UInt8)) : List (List UInt8) :=
  lines.takeWhile fun line => (Text.decode? line).isSome

/-- What a replay goes on to do follows from the lines that it reads. -/
theorem readLines_eq (replay : Replay) (lines : List (List UInt8)) :
    replay.readLines lines =
      ({ ledger := replay.ledger.ingestAll (eventsOf lines)
         changes :=
           replay.changes ++ replay.ledger.changesAlong (eventsOf lines)
         events := replay.events + (eventsOf lines).length
         applied :=
           replay.applied +
             (replay.ledger.outcomesAlong (eventsOf lines)).countP
               fun outcome => outcome.change.isSome
         skipped := replay.skipped + (heard lines).countP isMalformed },
        lines.all fun line => (Text.decode? line).isSome) := by
  induction lines generalizing replay with
  | nil =>
      rw [eventsOf, Ledger.changesAlong_nil, List.append_nil]
      rfl
  | cons line rest inductionHypothesis =>
      cases isText : Text.decode? line with
      | none =>
          have unread : heard (line :: rest) = [] := by simp [heard, isText]
          simp only [readLines, eventsOf, isText, unread,
            Ledger.changesAlong_nil, List.append_nil, List.all_cons,
            Option.isSome_none, Bool.false_and]
          rfl
      | some text =>
          have read : heard (line :: rest) = line :: heard rest := by
            simp [heard, isText]
          simp only [readLines, eventsOf, isText, read, inductionHypothesis,
            List.countP_cons, List.all_cons, Option.isSome_some,
            Bool.true_and]
          cases writes : eventOf? text with
          | none =>
              rw [readText_of_silent writes,
                isMalformed_of_silent isText writes,
                isBlank_of_decode? isText]
              cases Text.isAllBlank text.toList
              · simp [skipping, Nat.add_assoc, Nat.add_comm]
              · rfl
          | some event =>
              obtain ⟨_, wellFormed⟩ :=
                isBlank_and_isMalformed_of_event isText writes
              simp only [readText_of_event writes, ingest, wellFormed,
                Option.toList_some, List.singleton_append,
                Ledger.ingestAll, List.foldl_cons,
                Ledger.changesAlong_cons, Ledger.outcomesAlong_cons,
                List.length_cons, List.countP_cons, List.append_assoc]
              cases (replay.ledger.ingest event).change <;>
                simp [Nat.add_assoc, Nat.add_comm]

/-- What becomes of a log follows from its lines. -/
theorem read_eq (ledger : Ledger) (bytes : List UInt8) :
    read ledger bytes =
      ({ ledger := ledger.ingestAll (eventsOf (Text.lines bytes))
         changes := ledger.changesAlong (eventsOf (Text.lines bytes))
         events := (eventsOf (Text.lines bytes)).length
         applied :=
           (ledger.outcomesAlong (eventsOf (Text.lines bytes))).countP
             fun outcome => outcome.change.isSome
         skipped := (heard (Text.lines bytes)).countP isMalformed },
        (Text.lines bytes).all fun line => (Text.decode? line).isSome) := by
  have replayed := readLines_eq (start ledger) (Text.lines bytes)
  simp only [start, List.nil_append, Nat.zero_add] at replayed
  exact replayed

/-- A line that is not blank writes an event or is malformed. -/
theorem length_eventsOf_add_countP
    {lines : List (List UInt8)}
    (legible : ∀ line ∈ lines, (Text.decode? line).isSome = true) :
    (eventsOf lines).length + lines.countP isMalformed =
      lines.countP fun line => !isBlank line := by
  induction lines with
  | nil => rfl
  | cons line rest inductionHypothesis =>
      obtain ⟨isText, restLegible⟩ := List.forall_mem_cons.1 legible
      obtain ⟨text, isText⟩ := Option.isSome_iff_exists.1 isText
      have others := inductionHypothesis restLegible
      simp only [eventsOf, isText, List.countP_cons, List.length_append]
      cases writes : eventOf? text with
      | none =>
          simp [isMalformed_of_silent isText writes, ← others,
            Nat.add_assoc]
      | some event =>
          obtain ⟨notBlank, wellFormed⟩ :=
            isBlank_and_isMalformed_of_event isText writes
          simp only [notBlank, wellFormed, ← others, Option.toList_some,
            List.length_singleton, Bool.not_false, Bool.false_eq_true,
            ↓reduceIte]
          omega

end Counts

section Insertion

/-- A line that is a text without an event. -/
def IsSilent (line : List UInt8) : Prop :=
  ∃ text, Text.decode? line = some text ∧ eventOf? text = none

/-- Silent lines are passed over, and those that are not blank are counted. -/
theorem readLines_append_of_silent
    {added : List (List UInt8)}
    (silent : ∀ line ∈ added, IsSilent line)
    (replay : Replay)
    (second : List (List UInt8)) :
    replay.readLines (added ++ second) =
      (replay.skipping (added.countP fun line => !isBlank line)).readLines
        second := by
  induction added generalizing replay with
  | nil => rfl
  | cons line rest inductionHypothesis =>
      obtain ⟨⟨text, isText, writesNone⟩, restSilent⟩ :=
        List.forall_mem_cons.1 silent
      simp only [List.cons_append, readLines, isText,
        readText_of_silent writesNone, inductionHypothesis restSilent,
        List.countP_cons, isBlank_of_decode? isText, skipping_skipping]
      cases Text.isAllBlank text.toList <;> simp [Nat.add_comm]

theorem eventsOf_append_of_silent
    {added : List (List UInt8)}
    (silent : ∀ line ∈ added, IsSilent line)
    (second : List (List UInt8)) :
    eventsOf (added ++ second) = eventsOf second := by
  induction added with
  | nil => rfl
  | cons line rest inductionHypothesis =>
      obtain ⟨⟨text, isText, writesNone⟩, restSilent⟩ :=
        List.forall_mem_cons.1 silent
      simp only [List.cons_append, eventsOf, isText, writesNone,
        Option.toList_none, List.nil_append, inductionHypothesis restSilent]

/--
Silent lines between others change the count of skipped lines at most, and
nothing at all if the replay ends in front of them.
-/
theorem readLines_insert
    {added : List (List UInt8)}
    (silent : ∀ line ∈ added, IsSilent line)
    (replay : Replay)
    (first second : List (List UInt8)) :
    ∃ count ≤ added.countP (fun line => !isBlank line),
      replay.readLines (first ++ (added ++ second)) =
        ((replay.readLines (first ++ second)).1.skipping count,
          (replay.readLines (first ++ second)).2) := by
  induction first generalizing replay with
  | nil =>
      refine ⟨_, Nat.le_refl _, ?_⟩
      rw [List.nil_append, readLines_append_of_silent silent,
        readLines_skipping]
      rfl
  | cons line rest inductionHypothesis =>
      simp only [List.cons_append, readLines]
      cases Text.decode? line with
      | none => exact ⟨0, Nat.zero_le _, rfl⟩
      | some text => exact inductionHypothesis (replay.readText text)

theorem eventsOf_insert
    {added : List (List UInt8)}
    (silent : ∀ line ∈ added, IsSilent line)
    (first second : List (List UInt8)) :
    eventsOf (first ++ (added ++ second)) = eventsOf (first ++ second) := by
  induction first with
  | nil => exact eventsOf_append_of_silent silent second
  | cons line rest inductionHypothesis =>
      simp only [List.cons_append, eventsOf]
      cases Text.decode? line with
      | none => rfl
      | some text => exact congrArg _ inductionHypothesis

theorem isSilent_of_isBlank
    {line : List UInt8}
    (blank : isBlank line = true) :
    IsSilent line := by
  cases isText : Text.decode? line with
  | none =>
      rw [isBlank, isText] at blank
      cases blank
  | some text =>
      rw [isBlank_of_decode? isText] at blank
      exact ⟨text, isText, if_pos blank⟩

theorem isSilent_of_isMalformed
    {line : List UInt8}
    (malformed : isMalformed line = true) :
    IsSilent line := by
  cases isText : Text.decode? line with
  | none =>
      rw [isMalformed, isText] at malformed
      cases malformed
  | some text =>
      rw [isMalformed, isText, Option.any_some, Bool.and_eq_true,
        Bool.not_eq_true', Option.isNone_iff_eq_none] at malformed
      obtain ⟨written, unread⟩ := malformed
      refine ⟨text, isText, ?_⟩
      rw [eventOf?, if_neg (Bool.eq_false_iff.1 written), unread]

variable {isExtra : List UInt8 → Bool} {bytes other : List UInt8}

/-- Silent lines in a log are skipped, and blank ones are not even counted. -/
theorem read_interlined
    (silent : ∀ line, isExtra line = true → IsSilent line)
    (interlined : Text.Interlined isExtra bytes other)
    (ledger : Ledger) :
    ∃ count,
      ((∀ line, isExtra line = true → isBlank line = true) → count = 0) ∧
        read ledger other =
          ((read ledger bytes).1.skipping count, (read ledger bytes).2) := by
  induction interlined with
  | none => exact ⟨0, fun _ => rfl, rfl⟩
  | @more first added second earlier firstEnds addedEnds extra
      inductionHypothesis =>
      obtain ⟨count, blankCount, same⟩ := inductionHypothesis
      obtain ⟨others, atMost, inserted⟩ :=
        readLines_insert (fun line member => silent line (extra line member))
          (start ledger) (Text.lines first) (Text.lines second)
      refine ⟨count + others, fun blank => ?_, ?_⟩
      · have noneWritten :
            (Text.lines added).countP (fun line => !isBlank line) = 0 :=
          List.countP_eq_zero.2 fun line member => by
            simp [blank line (extra line member)]
        have noOthers : others = 0 := Nat.le_zero.1 (noneWritten ▸ atMost)
        rw [blankCount blank, noOthers]
      · unfold read at same ⊢
        rw [Text.lines_append firstEnds] at same
        rw [Text.lines_append firstEnds, Text.lines_append addedEnds,
          inserted, same, skipping_skipping]

theorem eventsOf_interlined
    (silent : ∀ line, isExtra line = true → IsSilent line)
    (interlined : Text.Interlined isExtra bytes other) :
    eventsOf (Text.lines other) = eventsOf (Text.lines bytes) := by
  induction interlined with
  | none => rfl
  | @more first added second earlier firstEnds addedEnds extra
      inductionHypothesis =>
      rw [← inductionHypothesis, Text.lines_append firstEnds,
        Text.lines_append firstEnds, Text.lines_append addedEnds]
      exact eventsOf_insert
        (fun line member => silent line (extra line member)) _ _

end Insertion

/-- Every log is replayed line by line, into whatever ledger. -/
theorem goesByLines (ledger : Ledger) : GoesByLines ledger := by
  constructor
  case append =>
    intro first second ends legible
    obtain ⟨others, complete⟩ :=
      readLines_append legible (start ledger) (Text.lines second)
    refine ⟨complete, ?_, ?_⟩
    · have resumed :=
        readLines_followedBy (read ledger first).1
          (start (read ledger first).1.ledger) (Text.lines second)
      rw [followedBy_start] at resumed
      unfold read at resumed ⊢
      rw [Text.lines_append ends, others, resumed]
    · unfold notices
      rw [Text.lines_append ends, eventsOf_append legible,
        Ledger.noticesAlong_append, ledger_read]
  case interlined_blank =>
    intro bytes other interlined
    obtain ⟨count, noCount, same⟩ :=
      read_interlined (fun _ => isSilent_of_isBlank) interlined ledger
    have events :=
      eventsOf_interlined (fun _ => isSilent_of_isBlank) interlined
    obtain rfl := noCount fun _ blank => blank
    exact ⟨same, congrArg ledger.noticesAlong events⟩
  case interlined_malformed =>
    intro bytes other interlined
    obtain ⟨count, _, same⟩ :=
      read_interlined (fun _ => isSilent_of_isMalformed) interlined ledger
    have events :=
      eventsOf_interlined (fun _ => isSilent_of_isMalformed) interlined
    exact ⟨⟨count, same⟩, congrArg ledger.noticesAlong events⟩
  case ingests =>
    intro bytes
    rw [read_eq]
    exact ⟨rfl, rfl⟩
  case counts =>
    intro bytes complete
    rw [read_eq] at complete ⊢
    have legible := List.all_eq_true.1 complete
    have allHeard : heard (Text.lines bytes) = Text.lines bytes :=
      List.takeWhile_eq_self_iff.2 legible
    refine ⟨rfl, ?_, rfl⟩
    dsimp only
    rw [allHeard]
    exact length_eventsOf_add_countP legible
  case stops =>
    intro bytes illegible
    obtain ⟨first, second, line, later, rfl, ends, legible, isLines,
        broken⟩ :=
      Text.exists_cut_of_not_isLegible illegible
    refine ⟨first, second, line, later, rfl, ends, legible, isLines, broken,
      ?_, ?_⟩
    · unfold read
      rw [Text.lines_append ends, isLines,
        (readLines_append legible _ _).1, readLines, broken]
    · unfold notices
      rw [Text.lines_append ends, isLines, eventsOf_append legible,
        eventsOf, broken]
      simp

/-- A blank line, one that is no event and one that is no text. -/
example :
    let replay := read .trackingAll [32, 13, 10, 120, 10, 255, 10, 120]
    (replay.1.events, replay.1.skipped, replay.2) = (0, 1, false) := by
  decide

end Replay

end BackupHistory
