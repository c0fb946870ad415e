import BackupHistory.Flow
import BackupHistory.Proofs.Table

namespace BackupHistory.Flow

/-!
# Flows of operations

Operations give one flow for each flow id among them. All that is said of a
flow comes from its own operations, and its id is theirs.
-/

/-- The flow with its revision replaced. -/
def atRevision (revision : Nat) (flow : Flow) : Flow :=
  { flow with revision := revision }

/-- Flows that are the only ones with their ids. -/
def Distinct (flows : List Flow) : Prop :=
  ∀ first ∈ flows, ∀ second ∈ flows, first.id = second.id → first = second

/-- The ids of the flows of operations, each once and in order. -/
def idsOf (operations : List Operation) : List FlowId :=
  (Table.ofList
    (operations.map fun operation => (operation.flowId, ()))).keys

/-- The flow of those operations that have its id, unless it is hidden. -/
def shown? (operations : List Operation) (flowId : FlowId) : Option Flow :=
  (ofOperations?
      (operations.filter fun operation => operation.flowId = flowId)).filter
    fun flow => !flow.hidden

/-- The flows of operations that are not hidden, in the order of their ids. -/
def allOf (operations : List Operation) : List Flow :=
  (idsOf operations).filterMap (shown? operations)

/-- Operations give a flow unless there are none. -/
theorem ofOperations?_eq_none_iff (operations : List Operation) :
    ofOperations? operations = none ↔ operations = [] := by
  have sorted :
      inIdOrder operations = [] ↔ operations = [] := by
    rw [← List.length_eq_zero_iff, ← List.length_eq_zero_iff]
    unfold inIdOrder
    rw [List.length_mergeSort]
  rw [← sorted]
  unfold ofOperations?
  cases inIdOrder operations with
  | nil => simp [ofOrdered?]
  | cons first rest => simp [ofOrdered?]

/-- Operations that are in the order of their ids need not be sorted. -/
theorem ofOperations?_of_pairwise
    {operations : List Operation}
    (ordered :
      operations.Pairwise fun left right => left.id ≤ right.id) :
    ofOperations? operations = ofOrdered? operations := by
  unfold ofOperations? inIdOrder
  rw [List.mergeSort_of_pairwise (ordered.imp decide_eq_true)]

theorem mem_idsOf (operations : List Operation) (flowId : FlowId) :
    flowId ∈ idsOf operations ↔
      ∃ operation ∈ operations, operation.flowId = flowId := by
  unfold idsOf
  rw [Table.mem_keys_ofList]
  simp

/-- A flow has the id that its operations have. -/
theorem id_of_ofOperations?
    {operations : List Operation}
    {flow : Flow}
    {flowId : FlowId}
    (derived : ofOperations? operations = some flow)
    (same : ∀ operation ∈ operations, operation.flowId = flowId) :
    flow.id = flowId := by
  have sorted :
      ∀ operation ∈ inIdOrder operations, operation.flowId = flowId := by
    intro operation member
    exact same operation (List.mem_mergeSort.1 member)
  unfold ofOperations? at derived
  cases shape : inIdOrder operations with
  | nil =>
      rw [shape] at derived
      cases derived
  | cons first rest =>
      rw [shape] at derived sorted
      cases derived
      exact sorted first List.mem_cons_self

theorem id_of_shown?
    {operations : List Operation}
    {flow : Flow}
    {flowId : FlowId}
    (shown : shown? operations flowId = some flow) :
    flow.id = flowId := by
  refine id_of_ofOperations? (Option.filter_eq_some_iff.1 shown).1 ?_
  intro operation member
  simpa using (List.mem_filter.1 member).2

/-- A flow has the operations that it is derived from. -/
theorem mem_operations_of_ofOperations?
    {operations : List Operation}
    {flow : Flow}
    (derived : ofOperations? operations = some flow)
    {operation : Operation} :
    operation ∈ flow.operations ↔ operation ∈ operations := by
  have sorted :
      operation ∈ inIdOrder operations ↔ operation ∈ operations :=
    List.mem_mergeSort
  unfold ofOperations? at derived
  rw [← sorted]
  cases shape : inIdOrder operations with
  | nil =>
      rw [shape] at derived
      cases derived
  | cons first rest =>
      rw [shape] at derived
      cases derived
      exact Iff.rfl

end BackupHistory.Flow
