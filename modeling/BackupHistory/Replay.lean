import BackupHistory.Ledger.Ingest
import BackupHistory.Text.Blank
import BackupHistory.Text.Lines

namespace BackupHistory

/-!
# Replaying a log

A log has one event on each line. Blank lines are passed over and lines that
write no event are counted and skipped. Only a line that is no text ends the
replay early, with the ledger as the lines before it left it.
-/

/-- A replay in progress: the ledger, what it was told and the counts. -/
structure Replay where
  ledger : Ledger
  /-- The changes in the order in which they happened. -/
  changes : List Change
  /-- The lines that wrote an event. -/
  events : Nat
  /-- The events that changed the ledger. -/
  applied : Nat
  /-- The lines that wrote no event. -/
  skipped : Nat

namespace Replay

/-- A replay into a ledger that has read nothing. -/
def start (ledger : Ledger) : Replay where
  ledger := ledger
  changes := []
  events := 0
  applied := 0
  skipped := 0

def ingest (replay : Replay) (event : Event) : Replay :=
  let outcome := replay.ledger.ingest event
  { replay with
    ledger := outcome.ledger
    changes := replay.changes ++ outcome.change.toList
    events := replay.events + 1
    applied := replay.applied + outcome.change.toList.length }

def readText (replay : Replay) (text : String) : Replay :=
  if Text.isAllBlank text.toList then
    replay
  else
    match Event.read? text with
    | some event => replay.ingest event
    | none => { replay with skipped := replay.skipped + 1 }

/-- Read lines up to the first that is no text; the flag says whether all were. -/
def readLines (replay : Replay) : List (List UInt8) → Replay × Bool
  | [] => (replay, true)
  | line :: rest =>
      match Text.decode? line with
      | none => (replay, false)
      | some text => readLines (replay.readText text) rest

/-- Replay the bytes of a log; the flag says whether all lines were texts. -/
def read (ledger : Ledger) (bytes : List UInt8) : Replay × Bool :=
  (start ledger).readLines (Text.lines bytes)

end Replay

end BackupHistory
