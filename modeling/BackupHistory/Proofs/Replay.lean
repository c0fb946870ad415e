import BackupHistory.Proofs.Ledger.Revision
import BackupHistory.Proofs.Ledger.Tracking
import BackupHistory.Proofs.Tree.Unrevised
import BackupHistory.Replay

namespace BackupHistory

/-!
# Replaying a log again

A log is nothing but the events that its lines write. Replaying it for the
second time goes through old reports over newer ones, and still ends where the
first time ended.
-/

namespace Replay

/-- The event that the text of a line writes, a blank one writing none. -/
def eventOf? (text : String) : Option Event :=
  if Text.isAllBlank text.toList then
    none
  else
    Event.read? text

/-- The events that lines write, up to the first line that is no text. -/
def eventsOf : List (List UInt8) → List Event
  | [] => []
  | line :: rest =>
      match Text.decode? line with
      | none => []
      | some text => (eventOf? text).toList ++ eventsOf rest

theorem ledger_readText (replay : Replay) (text : String) :
    (replay.readText text).ledger =
      replay.ledger.ingestAll (eventOf? text).toList := by
  unfold readText eventOf?
  by_cases blank : Text.isAllBlank text.toList = true
  · rw [if_pos blank, if_pos blank]
    rfl
  · rw [if_neg blank, if_neg blank]
    cases Event.read? text <;> rfl

theorem ledger_readLines (replay : Replay) (lines : List (List UInt8)) :
    (replay.readLines lines).1.ledger =
      replay.ledger.ingestAll (eventsOf lines) := by
  induction lines generalizing replay with
  | nil => rfl
  | cons line rest inductionHypothesis =>
      unfold readLines eventsOf
      cases Text.decode? line with
      | none => rfl
      | some text =>
          simp only [inductionHypothesis, ledger_readText]
          exact (List.foldl_append ..).symm

/-- A log is replayed by ingesting the events that its lines write. -/
theorem ledger_read (ledger : Ledger) (bytes : List UInt8) :
    (read ledger bytes).1.ledger =
      ledger.ingestAll (eventsOf (Text.lines bytes)) :=
  ledger_readLines (start ledger) (Text.lines bytes)

end Replay

namespace Ledger

/-- Ledgers whose trees are drawn alike, however they are arranged. -/
def DrawnAlike (left right : Ledger) : Prop :=
  ∀ (arrangement : Arrangement) (showAll : Bool),
    (arrangement.build left.flows).draw showAll =
      (arrangement.build right.flows).draw showAll

theorem Consistent.drawnAlike
    {left right : Ledger}
    (leftConsistent : left.Consistent)
    (rightConsistent : right.Consistent)
    (alike : left.Alike right) :
    left.DrawnAlike right := by
  intro arrangement showAll
  exact Arrangement.draw_build_eq_of_unrevised arrangement showAll
    leftConsistent.distinct_flows rightConsistent.distinct_flows
    alike.flows

theorem Consistent.alike_ingestAll_twice
    {ledger : Ledger}
    (consistent : ledger.Consistent)
    (events : List Event) :
    ((ledger.ingestAll events).ingestAll events).Alike
        (ledger.ingestAll events) ∧
      ((ledger.ingestAll events).ingestAll events).DrawnAlike
        (ledger.ingestAll events) := by
  obtain ⟨once, _⟩ := consistent.ingestAll events
  obtain ⟨twice, _⟩ := once.ingestAll events
  have alike := twice.alike once
    (consistent.operation?_ingestAll_twice events)
  exact ⟨alike, twice.drawnAlike once alike⟩

/--
After any actions on a new ledger, ingesting events or replaying a log for the
second time leaves what the first time left, revisions apart.
-/
theorem absorbs_replay
    (accepts : Operation → Bool)
    (actions : List Action) :
    let ledger := (new accepts).performAll actions
    (∀ events,
      let once := ledger.ingestAll events
      let twice := once.ingestAll events
      twice.Alike once ∧ twice.DrawnAlike once) ∧
    (∀ bytes,
      let once := (Replay.read ledger bytes).1.ledger
      let twice := (Replay.read once bytes).1.ledger
      twice.Alike once ∧ twice.DrawnAlike once) := by
  obtain ⟨consistent, _⟩ := (consistent_new accepts).performAll actions
  refine ⟨consistent.alike_ingestAll_twice, ?_⟩
  intro bytes
  simp only [Replay.ledger_read]
  exact consistent.alike_ingestAll_twice _

end Ledger

end BackupHistory
