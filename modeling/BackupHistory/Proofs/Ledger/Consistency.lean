import BackupHistory.Proofs.Ledger.Progress

namespace BackupHistory

/-!
# Consistent ledgers

Between two actions a ledger holds nothing but consequences of what it tracks:
the groups are the tracked operations by flow, and the flows that are shown are
those of the groups, derived from scratch. `Ledger.Consistent` is the invariant
that an action keeps, and `Ledger.faithful_performAll` states its consequences
for everything that can be asked of a ledger.
-/

namespace Ledger

/-- What can be done with a ledger. -/
inductive Action where
  | ingest (event : Event)
  | subscribe
  | unsubscribe (id : SubscriptionId)
  | dispose
  deriving Repr, DecidableEq

/-- The ledger after an action. -/
def perform (ledger : Ledger) : Action → Ledger
  | .ingest event => (ledger.ingest event).ledger
  | .subscribe => ledger.subscribe.1
  | .unsubscribe id => ledger.unsubscribe id
  | .dispose => ledger.dispose

/-- The ledger after actions, one after another. -/
def performAll (ledger : Ledger) (actions : List Action) : Ledger :=
  actions.foldl perform ledger

/-- The revision at which the group of a flow last changed. -/
def revisionOf (ledger : Ledger) (flowId : FlowId) : Nat :=
  ((ledger.groups.get? flowId).getD .empty).revision

/-- A ledger that holds nothing but consequences of what it tracks. -/
structure Consistent (ledger : Ledger) : Prop where
  indexed : ledger.Indexed
  inhabited :
    ∀ {flowId group},
      ledger.groups.get? flowId = some group →
      group.members.isEmpty = false
  visible :
    ∀ flowId, ledger.visible.get? flowId = ledger.derived? flowId

/-- An event leaves what its touched flows are derived to. -/
theorem ledger_ingest (ledger : Ledger) (event : Event) :
    (ledger.ingest event).ledger =
      ((Batch.start ledger).apply event).flowIds.foldl refresh
        ((Batch.start ledger).apply event).ledger := by
  unfold ingest
  cases touched : ((Batch.start ledger).apply event).flowIds with
  | nil => simp [touched]
  | cons first rest => simp [touched]

/-- An event is applied item by item and its touched flows are derived anew. -/
theorem Indexed.ingested
    {ledger : Ledger}
    (indexed : ledger.Indexed)
    (event : Event) :
    let batch := (Batch.start ledger).apply event
    Batch.Progress ledger batch ∧
      Refreshed batch.ledger batch.flowIds
        (ledger.ingest event).ledger := by
  intro batch
  have progress : Batch.Progress ledger batch :=
    Batch.Progress.apply indexed event
  rw [ledger_ingest]
  exact ⟨progress, refreshed_foldl progress.indexed batch.flowIds⟩

theorem Batch.Progress.operationsOf_untouched
    {origin : Ledger}
    {batch : Batch}
    (progress : Progress origin batch)
    {flowId : FlowId}
    (untouched : flowId ∉ batch.flowIds)
    {group : Group}
    (found : batch.ledger.groups.get? flowId = some group) :
    batch.ledger.operationsOf group = origin.operationsOf group := by
  unfold operationsOf
  apply List.filterMap_congr
  intro id isMember
  have member : (batch.ledger.membersOf flowId).contains id = true := by
    rw [membersOf_of_group found]
    exact (Table.mem_keys_iff group.members id).1 isMember
  obtain ⟨operation, tracked, rfl⟩ := progress.indexed.member_iff.1 member
  rw [tracked]
  exact ((progress.untouchedReport untouched).1 tracked).symm

theorem Batch.Progress.derived?_untouched
    {origin : Ledger}
    {batch : Batch}
    (progress : Progress origin batch)
    {flowId : FlowId}
    (untouched : flowId ∉ batch.flowIds) :
    batch.ledger.derived? flowId = origin.derived? flowId := by
  unfold derived?
  rw [← progress.untouchedGroup untouched]
  cases found : batch.ledger.groups.get? flowId with
  | none => rfl
  | some group =>
      simp [progress.operationsOf_untouched untouched found]

theorem Batch.Progress.operations_untouched
    {origin : Ledger}
    {batch : Batch}
    (progress : Progress origin batch)
    {flowId : FlowId}
    (untouched : flowId ∉ batch.flowIds) :
    batch.ledger.operations flowId = origin.operations flowId := by
  unfold Ledger.operations
  rw [← progress.untouchedGroup untouched]
  cases found : batch.ledger.groups.get? flowId with
  | none => rfl
  | some group => exact progress.operationsOf_untouched untouched found

theorem Consistent.ingest
    {ledger : Ledger}
    (consistent : ledger.Consistent)
    (event : Event) :
    (ledger.ingest event).ledger.Consistent := by
  obtain ⟨progress, refreshed⟩ := consistent.indexed.ingested event
  refine ⟨refreshed.indexed, ?_, ?_⟩
  · intro flowId group found
    rw [refreshed.groups] at found
    by_cases touched :
        flowId ∈ ((Batch.start ledger).apply event).flowIds
    · rw [if_pos touched] at found
      simpa using (Option.filter_eq_some_iff.1 found).2
    · rw [if_neg touched, progress.untouchedGroup touched] at found
      exact consistent.inhabited found
  · intro flowId
    rw [refreshed.visible, refreshed.derived]
    by_cases touched :
        flowId ∈ ((Batch.start ledger).apply event).flowIds
    · rw [if_pos touched]
    · rw [if_neg touched, progress.visible, consistent.visible]
      exact (progress.derived?_untouched touched).symm

theorem consistent_new (accepts : Operation → Bool) :
    (new accepts).Consistent where
  indexed := indexed_new accepts
  inhabited found := by cases found
  visible _ := rfl

theorem Consistent.perform
    {ledger : Ledger}
    (consistent : ledger.Consistent)
    (action : Action) :
    (ledger.perform action).Consistent := by
  cases action with
  | ingest event => exact consistent.ingest event
  | subscribe =>
      exact ⟨⟨consistent.indexed.own, consistent.indexed.members,
        consistent.indexed.revision_le⟩,
        consistent.inhabited, consistent.visible⟩
  | unsubscribe id =>
      exact ⟨⟨consistent.indexed.own, consistent.indexed.members,
        consistent.indexed.revision_le⟩,
        consistent.inhabited, consistent.visible⟩
  | dispose =>
      have fresh := consistent_new ledger.accepts
      refine ⟨⟨fresh.indexed.own, fresh.indexed.members, ?_⟩,
        fresh.inhabited, fresh.visible⟩
      intro flowId group found
      cases found

/-- No action changes which operations are tracked at all. -/
theorem accepts_perform
    {ledger : Ledger}
    (consistent : ledger.Consistent)
    (action : Action) :
    (ledger.perform action).accepts = ledger.accepts := by
  cases action with
  | ingest event =>
      obtain ⟨progress, refreshed⟩ := consistent.indexed.ingested event
      exact refreshed.accepts.trans progress.accepts
  | subscribe => rfl
  | unsubscribe id => rfl
  | dispose => rfl

/-- Actions keep a ledger consistent and leave its filter. -/
theorem Consistent.performAll
    {ledger : Ledger}
    (consistent : ledger.Consistent)
    (actions : List Action) :
    (ledger.performAll actions).Consistent ∧
      (ledger.performAll actions).accepts = ledger.accepts := by
  induction actions generalizing ledger with
  | nil => exact ⟨consistent, rfl⟩
  | cons action rest inductionHypothesis =>
      obtain ⟨later, accepts⟩ :=
        inductionHypothesis (consistent.perform action)
      exact ⟨later, accepts.trans (accepts_perform consistent action)⟩

section Views

variable {ledger : Ledger}

theorem operations_eq_filterMap (ledger : Ledger) (flowId : FlowId) :
    ledger.operations flowId =
      (ledger.membersOf flowId).keys.filterMap ledger.tracked.get? := by
  unfold operations
  cases found : ledger.groups.get? flowId with
  | none =>
      unfold membersOf
      rw [found]
      rfl
  | some group =>
      rw [membersOf_of_group found]
      rfl

/-- The operations of a flow are those that are tracked with it. -/
theorem Indexed.operations_eq_filter
    (indexed : ledger.Indexed)
    (flowId : FlowId) :
    ledger.operations flowId =
      ledger.tracked.values.filter
        fun operation => operation.flowId = flowId := by
  have members :
      (ledger.membersOf flowId).keys =
        ledger.tracked.keys.filter fun id =>
          (ledger.tracked.get? id).any
            fun operation => operation.flowId = flowId := by
    apply Table.keys_eq_filter
    intro id
    change (ledger.membersOf flowId).contains id = true ↔ _
    rw [indexed.members]
    cases ledger.tracked.get? id with
    | none => simp
    | some operation => simp
  rw [operations_eq_filterMap, members,
    Table.values_eq_filterMap_keys, List.filterMap_filter,
    List.filter_filterMap]
  apply List.filterMap_congr
  intro id _
  cases ledger.tracked.get? id with
  | none => rfl
  | some operation => simp [Option.filter]

/-- Deriving flows anew leaves the operations of every flow. -/
theorem Refreshed.operations
    {before after : Ledger}
    {flowIds : List FlowId}
    (refreshed : Refreshed before flowIds after)
    (indexed : before.Indexed)
    (flowId : FlowId) :
    after.operations flowId = before.operations flowId := by
  rw [refreshed.indexed.operations_eq_filter,
    indexed.operations_eq_filter, refreshed.tracked]

theorem Indexed.mem_operations_iff
    (indexed : ledger.Indexed)
    {flowId : FlowId}
    {operation : Operation} :
    operation ∈ ledger.operations flowId ↔
      ledger.tracked.get? operation.id = some operation ∧
        operation.flowId = flowId := by
  rw [indexed.operations_eq_filter, List.mem_filter,
    Table.mem_values_iff, decide_eq_true_eq]
  have own (tracked : ∃ id, ledger.tracked.get? id = some operation) :
      ledger.tracked.get? operation.id = some operation := by
    obtain ⟨id, found⟩ := tracked
    rw [(indexed.own found).1]
    exact found
  exact and_congr_left fun _ => ⟨own, fun found => ⟨_, found⟩⟩

theorem Indexed.values_ascending (indexed : ledger.Indexed) :
    ledger.tracked.values.Pairwise fun left right =>
      left.id < right.id := by
  have ordered :=
    ledger.tracked.values_ordered Operation.id
      fun found => (indexed.own found).1
  exact ordered.imp Std.compare_eq_lt.1

/-- There is a group for each flow that something is tracked with. -/
theorem Consistent.group_iff
    (consistent : ledger.Consistent)
    (flowId : FlowId) :
    (ledger.groups.get? flowId).isSome ↔
      ∃ id operation,
        ledger.tracked.get? id = some operation ∧
          operation.flowId = flowId := by
  constructor
  · intro present
    obtain ⟨group, found⟩ := Option.isSome_iff_exists.1 present
    have inhabited := consistent.inhabited found
    have someMember : ∃ id, group.members.get? id ≠ none := by
      by_contra absent
      rw [not_exists] at absent
      have empty :=
        (Table.isEmpty_iff group.members).2
          fun id => not_not.1 (absent id)
      rw [inhabited] at empty
      cases empty
    obtain ⟨id, member⟩ := someMember
    have isMember : (ledger.membersOf flowId).contains id = true := by
      rw [membersOf_of_group found]
      exact Option.isSome_iff_ne_none.2 member
    exact ⟨id, consistent.indexed.member_iff.1 isMember⟩
  · rintro ⟨id, operation, found, rfl⟩
    obtain ⟨group, groupFound⟩ := consistent.indexed.exists_group found
    rw [groupFound]
    rfl

/-- What is derived of a flow comes from the operations tracked with it. -/
theorem Indexed.derived?_eq
    (indexed : ledger.Indexed)
    (flowId : FlowId) :
    ledger.derived? flowId =
      (Flow.shown? ledger.tracked.values flowId).map
        (Flow.atRevision (ledger.revisionOf flowId)) := by
  have operations := indexed.operations_eq_filter flowId
  unfold Flow.shown?
  rw [← operations]
  unfold derived? revisionOf Ledger.operations
  cases ledger.groups.get? flowId with
  | none =>
      have nothing := (Flow.ofOperations?_eq_none_iff []).2 rfl
      simp [nothing]
  | some group => rfl

/-- What is derived of a flow is not hidden and has the group's revision. -/
theorem derived?_eq_some_iff
    (ledger : Ledger)
    (flowId : FlowId)
    (flow : Flow) :
    ledger.derived? flowId = some flow ↔
      ∃ group derived,
        ledger.groups.get? flowId = some group ∧
          Flow.ofOperations? (ledger.operations flowId) =
            some derived ∧
          derived.hidden = false ∧
          flow = derived.atRevision group.revision := by
  unfold derived? Ledger.operations
  cases ledger.groups.get? flowId with
  | none => simp
  | some group =>
      constructor
      · intro derives
        obtain ⟨derived, kept, rfl⟩ := Option.map_eq_some_iff.1 derives
        obtain ⟨shape, shown⟩ := Option.filter_eq_some_iff.1 kept
        exact ⟨group, derived, rfl, shape, by simpa using shown, rfl⟩
      · rintro ⟨_, derived, ⟨⟩, shape, shown, rfl⟩
        simp [shape, shown, Option.filter]

/-- The flows that are shown are derived from all that is tracked. -/
theorem Consistent.flows_eq (consistent : ledger.Consistent) :
    ledger.flows =
      (Flow.allOf ledger.tracked.values).map fun flow =>
        flow.atRevision (ledger.revisionOf flow.id) := by
  have shown (flowId : FlowId) :
      ledger.visible.get? flowId =
        (Flow.shown? ledger.tracked.values flowId).map
          fun flow => flow.atRevision (ledger.revisionOf flow.id) := by
    rw [consistent.visible, consistent.indexed.derived?_eq]
    cases found : Flow.shown? ledger.tracked.values flowId with
    | none => rfl
    | some flow => simp [Flow.id_of_shown? found]
  have within (flowId : FlowId) (present : (ledger.visible.get? flowId).isSome) :
      flowId ∈ Flow.idsOf ledger.tracked.values := by
    rw [consistent.visible] at present
    obtain ⟨flow, derived⟩ := Option.isSome_iff_exists.1 present
    obtain ⟨group, found, _⟩ := Option.bind_eq_some_iff.1 derived
    obtain ⟨id, operation, tracked, hasFlow⟩ :=
      (consistent.group_iff flowId).1 (by rw [found]; rfl)
    exact (Flow.mem_idsOf _ flowId).2
      ⟨operation, (Table.mem_values_iff _ _).2 ⟨id, tracked⟩, hasFlow⟩
  unfold flows Flow.allOf Flow.idsOf
  rw [Table.values_eq_filterMap fun flowId present =>
      (Table.mem_keys_iff _ flowId).1 (within flowId present),
    List.map_filterMap]
  exact List.filterMap_congr fun flowId _ => shown flowId

end Views

/--
What can be asked of a ledger, answered from what it tracks.

The filter is the one that the ledger was made with.
-/
structure Faithful
    (accepts : Operation → Bool)
    (ledger : Ledger) : Prop where
  /-- Reports are tracked under their own id, have a flow and pass the filter. -/
  own :
    ∀ {id operation},
      ledger.operation? id = some operation →
      operation.id = id ∧
        operation.flowId ≠ "" ∧
        accepts operation = true
  /-- There is a group for exactly the flows of tracked operations. -/
  group_iff :
    ∀ flowId,
      (ledger.groups.get? flowId).isSome ↔
        ∃ id operation,
          ledger.operation? id = some operation ∧
            operation.flowId = flowId
  /-- Its members are exactly the operations that are tracked with the flow. -/
  member_iff :
    ∀ {flowId group},
      ledger.groups.get? flowId = some group →
      ∀ id,
        group.members.contains id = true ↔
          ∃ operation,
            ledger.operation? id = some operation ∧
              operation.flowId = flowId
  /-- The operations of a flow are all that are tracked with it. -/
  operations_eq :
    ∀ flowId,
      ledger.operations flowId =
        ledger.tracked.values.filter
          fun operation => operation.flowId = flowId
  /-- They are listed strictly ascending by id. -/
  operations_ascending :
    ∀ flowId,
      (ledger.operations flowId).Pairwise fun left right =>
        left.id < right.id
  /-- A flow is shown as derived from scratch, unless that is hidden. -/
  flow_iff :
    ∀ flowId flow,
      ledger.flow? flowId = some flow ↔
        ∃ group derived,
          ledger.groups.get? flowId = some group ∧
            Flow.ofOperations? (ledger.operations flowId) =
              some derived ∧
            derived.hidden = false ∧
            flow = derived.atRevision group.revision
  /-- All flows that are shown are derived from all that is tracked. -/
  flows_eq :
    ledger.flows =
      (Flow.allOf ledger.tracked.values).map fun flow =>
        flow.atRevision (ledger.revisionOf flow.id)

/-- A consistent ledger can be asked for nothing but what it tracks. -/
theorem Consistent.faithful
    {ledger : Ledger}
    (consistent : ledger.Consistent) :
    ledger.Faithful ledger.accepts where
  own := consistent.indexed.own
  group_iff := consistent.group_iff
  member_iff := by
    intro flowId group found id
    rw [← membersOf_of_group found]
    exact consistent.indexed.member_iff
  operations_eq := consistent.indexed.operations_eq_filter
  operations_ascending := by
    intro flowId
    rw [consistent.indexed.operations_eq_filter]
    exact consistent.indexed.values_ascending.filter _
  flow_iff := by
    intro flowId flow
    change ledger.visible.get? flowId = some flow ↔ _
    rw [consistent.visible]
    exact derived?_eq_some_iff ledger flowId flow
  flows_eq := consistent.flows_eq

/--
After any actions on a new ledger, all that can be asked of it is answered from
what it tracks.
-/
theorem faithful_performAll
    (accepts : Operation → Bool)
    (actions : List Action) :
    ((new accepts).performAll actions).Faithful accepts := by
  obtain ⟨consistent, sameFilter⟩ :=
    (consistent_new accepts).performAll actions
  have faithful := consistent.faithful
  rw [sameFilter] at faithful
  exact faithful

end Ledger

end BackupHistory
