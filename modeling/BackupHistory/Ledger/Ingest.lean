import BackupHistory.Ledger.Basic

namespace BackupHistory.Ledger

/-!
# Ingesting events

An event is applied one item after another while the touched operations and
flows are collected. Afterwards every touched flow is derived anew from its own
operations and the listeners are told. A report is ignored if it has no flow,
if it is older than the tracked one or if it says the same.
-/

/-- An element at the end of a list, unless the list has it. -/
def appendNew [DecidableEq α] (elements : List α) (element : α) : List α :=
  if element ∈ elements then
    elements
  else
    elements ++ [element]

/-- An element is in a list after it has been appended. -/
theorem mem_appendNew [DecidableEq α]
    {elements : List α} {element other : α} :
    other ∈ appendNew elements element ↔
      other ∈ elements ∨ other = element := by
  unfold appendNew
  split
  next present =>
    constructor
    · exact .inl
    · rintro (member | same)
      · exact member
      · exact same ▸ present
  · simp

/-- A ledger in the middle of an event, with what was touched so far. -/
structure Batch where
  ledger : Ledger
  ids : List OperationId
  flowIds : List FlowId

namespace Batch

def start (ledger : Ledger) : Batch :=
  ⟨ledger, [], []⟩

def touchOperation (id : OperationId) (batch : Batch) : Batch :=
  { batch with ids := appendNew batch.ids id }

/-- Put a group in place at a new revision and record its flow as touched. -/
def putGroup
    (flowId : FlowId)
    (members : Table OperationId Unit)
    (batch : Batch) :
    Batch :=
  let revision := batch.ledger.revisionCount + 1
  { batch with
    ledger :=
      { batch.ledger with
        groups := batch.ledger.groups.insert flowId ⟨members, revision⟩
        revisionCount := revision }
    flowIds := appendNew batch.flowIds flowId }

/-- Take an operation out of the group of a flow. -/
def detach
    (flowId : FlowId)
    (id : OperationId)
    (batch : Batch) :
    Batch :=
  match batch.ledger.groups.get? flowId with
  | some group => batch.putGroup flowId (group.members.erase id)
  | none =>
      { batch with
        ledger :=
          { batch.ledger with
            revisionCount := batch.ledger.revisionCount + 1 } }

/-- Stop tracking an operation, if it is tracked. -/
def remove (id : OperationId) (batch : Batch) : Batch :=
  match batch.ledger.tracked.get? id with
  | none => batch
  | some existing =>
      let untracked : Ledger :=
        { batch.ledger with tracked := batch.ledger.tracked.erase id }
      { batch with ledger := untracked }
        |>.detach existing.flowId id
        |>.touchOperation id

/-- Track a report and put it into the group of its flow. -/
def track (operation : Operation) (batch : Batch) : Batch :=
  let group :=
    (batch.ledger.groups.get? operation.flowId).getD .empty
  let tracked : Ledger :=
    { batch.ledger with
      tracked := batch.ledger.tracked.insert operation.id operation }
  { batch with ledger := tracked }
    |>.putGroup operation.flowId (group.members.insert operation.id ())
    |>.touchOperation operation.id

/-- Replace the tracked report of an operation by a newer one. -/
def replace (existing operation : Operation) (batch : Batch) : Batch :=
  if existing.flowId = operation.flowId then
    batch.track operation
  else
    (batch.detach existing.flowId operation.id).track operation

/--
Apply a report.

A report that is not accepted ends the tracking of its operation, unless the
tracked report is newer.
-/
def upsert (operation : Operation) (batch : Batch) : Batch :=
  let existing := batch.ledger.tracked.get? operation.id
  if ¬ operation.IsWellFormed then
    batch
  else if batch.ledger.accepts operation then
    match existing with
    | none => batch.track operation
    | some existing =>
        if operation.version < existing.version then
          batch
        else if existing.sameContent operation then
          batch
        else
          batch.replace existing operation
  else
    match existing with
    | none => batch
    | some existing =>
        if existing.version ≤ operation.version then
          batch.remove operation.id
        else
          batch

/-- Apply the items of an event in order. -/
def apply (event : Event) (batch : Batch) : Batch :=
  match event with
  | .created operations
  | .updated operations =>
      operations.foldl (fun batch operation => batch.upsert operation)
        batch
  | .deleted ids => ids.foldl (fun batch id => batch.remove id) batch

end Batch

/-- Derive a flow anew from its operations, or drop it once it has none. -/
def refresh (ledger : Ledger) (flowId : FlowId) : Ledger :=
  let dropped : Ledger :=
    { ledger with
      groups := ledger.groups.erase flowId
      visible := ledger.visible.erase flowId }
  match ledger.groups.get? flowId with
  | none => dropped
  | some group =>
      if group.members.isEmpty then
        dropped
      else
        match Flow.ofOperations? (ledger.operationsOf group) with
        | none => ledger
        | some flow =>
            if flow.hidden then
              { ledger with visible := ledger.visible.erase flowId }
            else
              { ledger with
                visible :=
                  ledger.visible.insert flowId
                    { flow with revision := group.revision } }

/-- What an event did. -/
structure Outcome where
  ledger : Ledger
  /-- What changed, absent if the event changed nothing. -/
  change : Option Change
  /-- The listeners that were told, in the order of the calls. -/
  notified : List SubscriptionId

/-- Apply an event and tell the listeners what it changed. -/
def ingest (ledger : Ledger) (event : Event) : Outcome :=
  let batch := (Batch.start ledger).apply event
  if batch.flowIds.isEmpty then
    { ledger := batch.ledger
      change := none
      notified := [] }
  else
    { ledger := batch.flowIds.foldl refresh batch.ledger
      change :=
        some {
          ids := batch.ids
          flowIds := batch.flowIds
          kind := event.kind }
      notified := ledger.listeners }

def ingestAll (ledger : Ledger) (events : List Event) : Ledger :=
  events.foldl (fun ledger event => (ledger.ingest event).ledger) ledger

end BackupHistory.Ledger
