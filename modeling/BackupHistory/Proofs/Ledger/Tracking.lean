import BackupHistory.Proofs.Ledger.Revision

namespace BackupHistory

/-!
# What is tracked in the course of events

What a ledger tracks of an operation after events is settled by the items about
it, starting from what was tracked of it before. Ledgers that track the same
show the same, revisions apart.
-/

/-- The items of events in order. -/
def Event.itemsOf (events : List Event) : List Event.Item :=
  events.flatMap Event.items

theorem Event.itemsOf_append (first second : List Event) :
    itemsOf (first ++ second) = itemsOf first ++ itemsOf second :=
  List.flatMap_append

/-- A check of a repository, reported at a version as part of a flow. -/
def Operation.checkReport
    (id : OperationId)
    (version : Int64)
    (flowId : FlowId) :
    Operation where
  id := id
  version := version
  flowId := flowId
  instanceId := "instance"
  planId := "plan"
  repoId := "repository"
  snapshotId := none
  status := .success
  startTime := ⟨1, 0, by decide, by decide⟩
  endTime := none
  displayMessage := none
  task := .check ""

namespace Ledger

namespace Batch

theorem tracked_applyItem
    {batch : Batch}
    (indexed : batch.ledger.Indexed)
    (item : Event.Item)
    (id : OperationId) :
    (batch.applyItem item).ledger.tracked.get? id =
      if id = item.target then
        item.settle batch.ledger.accepts
          (batch.ledger.tracked.get? id)
      else
        batch.ledger.tracked.get? id := by
  rcases applyItem_cases indexed item with ⟨unchanged, kept⟩ | assigned
  · rw [unchanged]
    by_cases same : id = item.target
    · rw [if_pos same, same]
      exact kept
    · rw [if_neg same]
  · rw [assigned.tracked]
    by_cases same : id = item.target
    · simp only [same]
    · simp only [same, ↓reduceIte]

theorem tracked_foldl_applyItem
    {origin : Ledger}
    {batch : Batch}
    (progress : Progress origin batch)
    (items : List Event.Item)
    (id : OperationId) :
    (items.foldl applyItem batch).ledger.tracked.get? id =
      Event.Item.settleAll origin.accepts (Event.Item.about id items)
        (batch.ledger.tracked.get? id) := by
  induction items generalizing batch with
  | nil => rfl
  | cons item rest inductionHypothesis =>
      rw [List.foldl_cons,
        inductionHypothesis (progress.applyItem item),
        tracked_applyItem progress.indexed, progress.accepts]
      unfold Event.Item.about
      by_cases same : id = item.target
      · rw [if_pos same, List.filter_cons_of_pos (by simp [same])]
        rfl
      · have other : ¬ item.target = id := fun equal => same equal.symm
        rw [if_neg same, List.filter_cons_of_neg (by simp [other])]

end Batch

namespace Consistent

variable {ledger : Ledger}

/-- An event settles what is tracked by its items about the operation. -/
theorem operation?_ingest
    (consistent : ledger.Consistent)
    (event : Event)
    (id : OperationId) :
    (ledger.ingest event).ledger.operation? id =
      Event.Item.settleAll ledger.accepts
        (Event.Item.about id event.items)
        (ledger.operation? id) := by
  have start := Batch.progress_start consistent.indexed
  obtain ⟨_, refreshed⟩ := consistent.indexed.ingested event
  unfold operation?
  rw [refreshed.tracked, Batch.apply_eq_foldl]
  exact Batch.tracked_foldl_applyItem start event.items id

theorem ingestAll
    (consistent : ledger.Consistent)
    (events : List Event) :
    (ledger.ingestAll events).Consistent ∧
      (ledger.ingestAll events).accepts = ledger.accepts := by
  have performed := consistent.performAll (events.map Action.ingest)
  unfold Ledger.performAll at performed
  rw [List.foldl_map] at performed
  exact performed

/-- Events settle what is tracked by all their items about the operation. -/
theorem operation?_ingestAll
    (consistent : ledger.Consistent)
    (events : List Event)
    (id : OperationId) :
    (ledger.ingestAll events).operation? id =
      Event.Item.settleAll ledger.accepts
        (Event.Item.about id (Event.itemsOf events))
        (ledger.operation? id) := by
  induction events generalizing ledger with
  | nil => rfl
  | cons event rest inductionHypothesis =>
      have accepts :
          (ledger.ingest event).ledger.accepts = ledger.accepts :=
        accepts_perform consistent (.ingest event)
      have later := inductionHypothesis (consistent.ingest event)
      rw [accepts, consistent.operation?_ingest] at later
      unfold Event.itemsOf at later ⊢
      rw [List.flatMap_cons, Event.Item.about_append,
        Event.Item.settleAll_append]
      exact later

end Consistent

/-- Ledgers that answer every question alike, revisions apart. -/
structure Alike (left right : Ledger) : Prop where
  operation? : ∀ id, left.operation? id = right.operation? id
  operations :
    ∀ flowId, left.operations flowId = right.operations flowId
  flows :
    left.flows.map (Flow.atRevision 0) =
      right.flows.map (Flow.atRevision 0)

/-- Consistent ledgers that track the same are alike. -/
theorem Consistent.alike
    {left right : Ledger}
    (leftConsistent : left.Consistent)
    (rightConsistent : right.Consistent)
    (same : ∀ id, left.operation? id = right.operation? id) :
    left.Alike right where
  operation? := same
  operations := by
    intro flowId
    have tracked : left.tracked = right.tracked := Table.ext_get? same
    rw [leftConsistent.indexed.operations_eq_filter,
      rightConsistent.indexed.operations_eq_filter, tracked]
  flows := by
    have tracked : left.tracked = right.tracked := Table.ext_get? same
    rw [leftConsistent.flows_eq, rightConsistent.flows_eq, tracked,
      List.map_map, List.map_map]
    rfl

/-- Operations that are tracked, listed with a flow or part of a shown one. -/
def Presents (ledger : Ledger) (operation : Operation) : Prop :=
  ledger.operation? operation.id = some operation ∨
    (∃ flowId, operation ∈ ledger.operations flowId) ∨
    ∃ flow ∈ ledger.flows, operation ∈ flow.operations

/-- Whatever a ledger presents is what it tracks. -/
theorem Consistent.presents_iff
    {ledger : Ledger}
    (consistent : ledger.Consistent)
    {operation : Operation} :
    ledger.Presents operation ↔
      ledger.operation? operation.id = some operation := by
  have listed {flowId : FlowId}
      (member : operation ∈ ledger.operations flowId) :
      ledger.operation? operation.id = some operation :=
    (consistent.indexed.mem_operations_iff.1 member).1
  constructor
  · rintro (tracked | ⟨flowId, member⟩ | ⟨flow, shown, member⟩)
    · exact tracked
    · exact listed member
    · have isShown := consistent.mem_flows_iff.1 shown
      exact listed ((consistent.mem_operations_of_shown isShown).1 member)
  · exact .inl

/-- Ingesting events for the second time changes nothing that is tracked. -/
theorem Consistent.operation?_ingestAll_twice
    {ledger : Ledger}
    (consistent : ledger.Consistent)
    (events : List Event)
    (id : OperationId) :
    ((ledger.ingestAll events).ingestAll events).operation? id =
      (ledger.ingestAll events).operation? id := by
  obtain ⟨onceConsistent, accepts⟩ := consistent.ingestAll events
  rw [onceConsistent.operation?_ingestAll, accepts,
    consistent.operation?_ingestAll]
  exact Event.Item.settleAll_settleAll ..

end Ledger

end BackupHistory
