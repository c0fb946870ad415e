import BackupHistory.Publisher.Basic

namespace BackupHistory

/-!
# A publisher in time

Time passes only while something is waited for. The publisher takes its steps
as soon as it can, and a tree that is due at the end of a wait is published
within it.
-/

/-- A ledger with its publisher at a time. -/
structure Timeline where
  now : Nat
  state : Published

namespace Timeline

/-- What can be done next to a publisher. -/
inductive Command where
  | ingest (event : Event)
  | dispose
  /-- Let time pass. -/
  | advance (millis : Nat)
  /-- Wait for a tree that has not been seen, but not longer than a time. -/
  | awaitTree (timeout : Nat)
  deriving Repr, DecidableEq

/-- What came of a command. -/
inductive Result where
  | ingested (changed : Bool)
  | done
  | tree (tree : Tree)
  | timeout
  /-- No tree will be published any more. -/
  | stopped

/-- The words in which an ended publisher is reported. -/
def stoppedMessage : String :=
  "tree rebuilder stopped"

def start
    (arrangement : Arrangement)
    (debounce : Nat)
    (ledger : Ledger) :
    Timeline :=
  ⟨0, Published.start arrangement debounce ledger⟩

/-- Let the publisher take its steps up to a time and then let it be then. -/
def waitUntil (target : Nat) (timeline : Timeline) : Timeline :=
  let settled := timeline.state.settle timeline.now
  match settled.due? with
  | some due =>
      if due ≤ target then
        ⟨target, settled.settle due⟩
      else
        ⟨target, settled⟩
  | none => ⟨target, settled⟩

/-- The tree that was published last, seen from now on. -/
def look (timeline : Timeline) : Timeline × Result :=
  let state := timeline.state
  ({ timeline with
     state :=
       { state with publisher := { state.publisher with unseen := false } } },
    .tree state.publisher.published)

/-- Wait for a tree that has not been seen. -/
def awaitTree (timeout : Nat) (timeline : Timeline) : Timeline × Result :=
  let settled := timeline.waitUntil timeline.now
  let last := timeline.now + timeout
  if settled.state.publisher.unseen then
    settled.look
  else if settled.state.hasEnded then
    (settled, .stopped)
  else
    match settled.state.due? with
    | some due =>
        if due ≤ last then
          (settled.waitUntil due).look
        else
          (settled.waitUntil last, .timeout)
    | none => (settled.waitUntil last, .timeout)

def perform (timeline : Timeline) : Command → Timeline × Result
  | .ingest event =>
      let (state, change) := timeline.state.ingest event
      (⟨timeline.now, state.settle timeline.now⟩,
        .ingested change.isSome)
  | .dispose =>
      (⟨timeline.now, timeline.state.dispose.settle timeline.now⟩, .done)
  | .advance millis =>
      (timeline.waitUntil (timeline.now + millis), .done)
  | .awaitTree timeout => timeline.awaitTree timeout

/-- What came of a command, and the timeline after it. -/
structure Entry where
  result : Result
  timeline : Timeline

def run (timeline : Timeline) : List Command → List Entry × Timeline
  | [] => ([], timeline)
  | command :: rest =>
      let (next, result) := timeline.perform command
      let (entries, last) := run next rest
      (⟨result, next⟩ :: entries, last)

end Timeline

end BackupHistory
