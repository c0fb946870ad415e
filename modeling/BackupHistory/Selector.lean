import BackupHistory.Event

namespace BackupHistory

/-!
# Selectors

A selector narrows a view to some operations. Every field that is set must
match, so the empty selector matches everything. A stream of events is scoped
by dropping the operations that do not match; deletions carry only ids and pass
unchanged.
-/

/-- Which operations a view is about. -/
structure Selector where
  ids : List OperationId
  instanceId : Option String
  repoId : Option String
  planId : Option String
  flowId : Option FlowId
  snapshotId : Option String
  deriving Repr, DecidableEq

namespace Selector

def empty : Selector :=
  ⟨[], none, none, none, none, none⟩

def forRepo (repoId : String) : Selector :=
  { empty with repoId := some repoId }

/-- The operations of a plan on a repository. -/
def forPlan (repoId planId : String) : Selector :=
  { empty with repoId := some repoId, planId := some planId }

/-- Whether a field that may be unset admits a value. -/
def admits [DecidableEq α] (wanted : Option α) (value : α) : Bool :=
  match wanted with
  | none => true
  | some expected => value = expected

/-- Whether an operation matches every field that is set. -/
def accepts (selector : Selector) (operation : Operation) : Bool :=
  (selector.ids.isEmpty || selector.ids.contains operation.id) &&
    admits selector.instanceId operation.instanceId &&
    admits selector.repoId operation.repoId &&
    admits selector.planId operation.planId &&
    admits selector.flowId operation.flowId &&
    (selector.snapshotId.isNone ||
      operation.snapshotId == selector.snapshotId)

/-- The empty selector matches everything. -/
@[simp] theorem accepts_empty (operation : Operation) :
    empty.accepts operation = true := by
  simp [accepts, empty, admits]

def toJson (selector : Selector) : Json :=
  .ofMembers
    [("ids", .array (selector.ids.map Json.ofInt64)),
      ("instance_id", .ofOption .ofString selector.instanceId),
      ("repo_id", .ofOption .ofString selector.repoId),
      ("plan_id", .ofOption .ofString selector.planId),
      ("flow_id", .ofOption .ofString selector.flowId),
      ("snapshot_id", .ofOption .ofString selector.snapshotId)]

/-- The names of a selector's fields in order. -/
def fieldNames : List String :=
  ["ids", "instance_id", "repo_id", "plan_id", "flow_id", "snapshot_id"]

/-- The ids that an array of integers writes. -/
def idsOfJson? (value : Json) : Option (List OperationId) :=
  value.toElements?.bind fun elements => elements.mapM Json.toInt64?

def ofJson? (value : Json) : Option Selector := do
  let optional :=
    Json.orDefault none (Json.nullable Json.toText?)
  match ← value.fields? fieldNames with
  | [ids, instanceId, repoId, planId, flowId, snapshotId] =>
      some {
        ids := ← Json.orDefault [] idsOfJson? ids
        instanceId := ← optional instanceId
        repoId := ← optional repoId
        planId := ← optional planId
        flowId := ← optional flowId
        snapshotId := ← optional snapshotId }
  | _ => none

end Selector

namespace Event

/-- What is left of an event within a selector, if anything is. -/
def scope? (selector : Selector) (event : Event) : Option Event :=
  let kept :=
    match event with
    | .created operations => .created (operations.filter selector.accepts)
    | .updated operations => .updated (operations.filter selector.accepts)
    | .deleted ids => .deleted ids
  if kept.isEmpty then
    none
  else
    some kept

end Event

end BackupHistory
