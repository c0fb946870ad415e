import BackupHistory.Proofs.Flow
import BackupHistory.Proofs.Ledger.Batch

namespace BackupHistory

/-!
# The items of an event

Item after item, flows that were not touched keep their group, their operations
and what is shown of them, and the group of a touched flow has a revision that
was not handed out before the event: that is `Batch.Progress`. When the touched
flows are derived anew afterwards, `derived?` is what comes to be shown.
-/

namespace Ledger

theorem mem_foldl_appendNew [DecidableEq α]
    {elements added : List α} {element : α} :
    element ∈ added.foldl appendNew elements ↔
      element ∈ elements ∨ element ∈ added := by
  induction added generalizing elements with
  | nil => simp
  | cons first rest inductionHypothesis =>
      rw [List.foldl_cons, inductionHypothesis, mem_appendNew,
        List.mem_cons, or_assoc]

namespace Batch

/-- A report that an item leaves tracked is accepted and has a flow. -/
theorem own_of_settle
    {ledger : Ledger}
    (indexed : ledger.Indexed)
    {item : Event.Item}
    {operation : Operation}
    (settled :
      item.settle ledger.accepts (ledger.tracked.get? item.target) =
        some operation) :
    operation.id = item.target ∧
      operation.IsWellFormed ∧
      ledger.accepts operation = true := by
  by_cases ignored :
      item.isIgnored ledger.accepts
        (ledger.tracked.get? item.target) = true
  · rw [Event.Item.settle_of_isIgnored ignored] at settled
    exact indexed.own settled
  · rw [Event.Item.settle_of_not_isIgnored ignored] at settled
    refine ⟨Event.Item.id_of_verdict settled, ?_⟩
    cases item with
    | deletion id => cases settled
    | report reported =>
        simp only [Event.Item.verdict] at settled
        split at settled
        next accepted =>
          cases settled
          refine ⟨?_, accepted⟩
          by_contra malformed
          exact ignored (by simp [Event.Item.isIgnored, malformed])
        next => cases settled

theorem Assigned.indexed
    {before after : Batch}
    {id : OperationId}
    {slot : Option Operation}
    (assigned : Assigned before id slot after)
    (indexed : before.ledger.Indexed)
    (own :
      ∀ operation,
        slot = some operation →
        operation.id = id ∧
          operation.IsWellFormed ∧
          before.ledger.accepts operation = true) :
    after.ledger.Indexed where
  own := by
    intro other operation found
    rw [assigned.tracked] at found
    rw [assigned.accepts]
    by_cases same : other = id
    · rw [if_pos same] at found
      rw [same]
      exact own operation found
    · rw [if_neg same] at found
      exact indexed.own found
  members := by
    intro flowId other
    rw [assigned.members, assigned.tracked]
    by_cases same : other = id
    · simp only [same, ↓reduceIte]
    · simp only [same, ↓reduceIte]
      exact indexed.members flowId other
  revision_le := by
    intro flowId group found
    by_cases inside :
        flowId ∈ flowsBetween (before.ledger.tracked.get? id) slot
    · obtain ⟨put, putFound, _, bound⟩ := assigned.touched inside
      rw [putFound] at found
      cases found
      exact bound
    · rw [assigned.untouched inside] at found
      exact Nat.le_trans (indexed.revision_le found)
        assigned.revisionCount

/-- How far an event has come that is applied to a ledger. -/
structure Progress (origin : Ledger) (batch : Batch) : Prop where
  indexed : batch.ledger.Indexed
  accepts : batch.ledger.accepts = origin.accepts
  visible : batch.ledger.visible = origin.visible
  listeners : batch.ledger.listeners = origin.listeners
  revisionCount : origin.revisionCount ≤ batch.ledger.revisionCount
  untouchedGroup :
    ∀ {flowId},
      flowId ∉ batch.flowIds →
      batch.ledger.groups.get? flowId = origin.groups.get? flowId
  untouchedReport :
    ∀ {id operation},
      operation.flowId ∉ batch.flowIds →
      (batch.ledger.tracked.get? id = some operation ↔
        origin.tracked.get? id = some operation)
  touchedGroup :
    ∀ {flowId},
      flowId ∈ batch.flowIds →
      ∃ group,
        batch.ledger.groups.get? flowId = some group ∧
          origin.revisionCount < group.revision

theorem progress_start {ledger : Ledger} (indexed : ledger.Indexed) :
    Progress ledger (start ledger) where
  indexed := indexed
  accepts := rfl
  visible := rfl
  listeners := rfl
  revisionCount := Nat.le_refl _
  untouchedGroup _ := rfl
  untouchedReport _ := Iff.rfl
  touchedGroup inside := by cases inside

namespace Progress

theorem of_assigned
    {origin : Ledger}
    {before after : Batch}
    {id : OperationId}
    {slot : Option Operation}
    (progress : Progress origin before)
    (assigned : Assigned before id slot after)
    (indexed : after.ledger.Indexed) :
    Progress origin after where
  indexed := indexed
  accepts := assigned.accepts.trans progress.accepts
  visible := assigned.visible.trans progress.visible
  listeners := assigned.listeners.trans progress.listeners
  revisionCount :=
    Nat.le_trans progress.revisionCount assigned.revisionCount
  untouchedGroup := by
    intro flowId outside
    rw [assigned.flowIds, mem_foldl_appendNew, not_or] at outside
    rw [assigned.untouched outside.2]
    exact progress.untouchedGroup outside.1
  untouchedReport := by
    intro other operation outside
    rw [assigned.flowIds, mem_foldl_appendNew, not_or] at outside
    rw [← progress.untouchedReport outside.1, assigned.tracked]
    by_cases same : other = id
    · -- Neither what was nor what is tracked has an untouched flow.
      have noReport
          (reported : Option Operation)
          (between :
            ∀ flowId ∈ flowOf reported,
              flowId ∈
                flowsBetween (before.ledger.tracked.get? id) slot) :
          reported ≠ some operation := by
        intro shape
        apply outside.2
        apply between
        simp [shape, flowOf]
      rw [if_pos same, same]
      constructor
      · intro found
        exact
          (noReport slot (fun flowId inside =>
            List.mem_append_right _ inside) found).elim
      · intro found
        exact
          (noReport _ (fun flowId inside =>
            List.mem_append_left _ inside) found).elim
    · rw [if_neg same]
  touchedGroup := by
    intro flowId inside
    by_cases between :
        flowId ∈ flowsBetween (before.ledger.tracked.get? id) slot
    · obtain ⟨group, found, fresh, _⟩ := assigned.touched between
      exact ⟨group, found,
        Nat.lt_of_le_of_lt progress.revisionCount fresh⟩
    · rw [assigned.flowIds, mem_foldl_appendNew] at inside
      rw [assigned.untouched between]
      exact progress.touchedGroup (inside.resolve_right between)

theorem applyItem
    {origin : Ledger}
    {batch : Batch}
    (progress : Progress origin batch)
    (item : Event.Item) :
    Progress origin (batch.applyItem item) := by
  rcases applyItem_cases progress.indexed item with
      ⟨unchanged, _⟩ | assigned
  · rw [unchanged]
    exact progress
  · refine progress.of_assigned assigned
      (assigned.indexed progress.indexed fun operation settled => ?_)
    exact own_of_settle progress.indexed settled

theorem foldl_applyItem
    {origin : Ledger}
    {batch : Batch}
    (progress : Progress origin batch)
    (items : List Event.Item) :
    Progress origin (items.foldl Batch.applyItem batch) := by
  induction items generalizing batch with
  | nil => exact progress
  | cons item rest inductionHypothesis =>
      exact inductionHypothesis (progress.applyItem item)

theorem apply
    {ledger : Ledger}
    (indexed : ledger.Indexed)
    (event : Event) :
    Progress ledger ((start ledger).apply event) := by
  rw [apply_eq_foldl]
  exact (progress_start indexed).foldl_applyItem event.items

end Progress

end Batch

/-- The flow to be shown under an id, derived from the members of its group. -/
def derived? (ledger : Ledger) (flowId : FlowId) : Option Flow :=
  (ledger.groups.get? flowId).bind fun group =>
    ((Flow.ofOperations? (ledger.operationsOf group)).filter
        fun flow => !flow.hidden).map
      (Flow.atRevision group.revision)

/-- The members of a group, once all are tracked, are its operations. -/
theorem operationsOf_eq_nil_iff
    {ledger : Ledger}
    (indexed : ledger.Indexed)
    {flowId : FlowId}
    {group : Group}
    (found : ledger.groups.get? flowId = some group) :
    ledger.operationsOf group = [] ↔ group.members.isEmpty = true := by
  unfold operationsOf
  rw [List.filterMap_eq_nil_iff, Table.isEmpty_iff]
  constructor
  · intro untracked id
    cases present : group.members.get? id with
    | none => rfl
    | some _ =>
        have isKey : id ∈ group.members.keys := by
          rw [Table.mem_keys_iff, present]
          rfl
        have member : (ledger.membersOf flowId).contains id = true := by
          rw [membersOf_of_group found]
          exact (Table.mem_keys_iff group.members id).1 isKey
        obtain ⟨operation, tracked, _⟩ := indexed.member_iff.1 member
        rw [untracked id isKey] at tracked
        cases tracked
  · intro absent id isKey
    rw [Table.mem_keys_iff, absent id] at isKey
    cases isKey

section Refresh

variable (ledger : Ledger) (flowId : FlowId)

@[simp] theorem tracked_refresh :
    (ledger.refresh flowId).tracked = ledger.tracked := by
  unfold refresh
  repeat' split
  all_goals rfl

@[simp] theorem accepts_refresh :
    (ledger.refresh flowId).accepts = ledger.accepts := by
  unfold refresh
  repeat' split
  all_goals rfl

@[simp] theorem listeners_refresh :
    (ledger.refresh flowId).listeners = ledger.listeners := by
  unfold refresh
  repeat' split
  all_goals rfl

@[simp] theorem revisionCount_refresh :
    (ledger.refresh flowId).revisionCount = ledger.revisionCount := by
  unfold refresh
  repeat' split
  all_goals rfl

/-- Deriving a flow anew drops its group if that has no members. -/
theorem groups_refresh (other : FlowId) :
    (ledger.refresh flowId).groups.get? other =
      if other = flowId then
        (ledger.groups.get? flowId).filter
          fun group => !group.members.isEmpty
      else
        ledger.groups.get? other := by
  unfold refresh
  cases found : ledger.groups.get? flowId with
  | none => simp
  | some group =>
      by_cases empty : group.members.isEmpty = true
      · simp [empty, Option.filter]
      · have kept :
            ledger.groups.get? other =
              if other = flowId then
                some group
              else
                ledger.groups.get? other := by
          by_cases same : other = flowId
          · simp [same, found]
          · simp [same]
        simp only [empty, Bool.false_eq_true, ↓reduceIte,
          Option.filter_some, Bool.not_false]
        cases Flow.ofOperations? (ledger.operationsOf group) with
        | none => exact kept
        | some flow =>
            by_cases hidden : flow.hidden = true
            · simp only [hidden, ↓reduceIte]
              exact kept
            · simp only [hidden, Bool.false_eq_true, ↓reduceIte]
              exact kept

/-- Deriving a flow anew shows what is derived from its group. -/
theorem visible_refresh (indexed : ledger.Indexed) (other : FlowId) :
    (ledger.refresh flowId).visible.get? other =
      if other = flowId then
        ledger.derived? flowId
      else
        ledger.visible.get? other := by
  unfold refresh derived?
  cases found : ledger.groups.get? flowId with
  | none => simp
  | some group =>
      have none_iff :=
        (Flow.ofOperations?_eq_none_iff _).trans
          (operationsOf_eq_nil_iff indexed found)
      by_cases empty : group.members.isEmpty = true
      · simp [empty, none_iff.2 empty]
      · -- A group with members always gives a flow, so nothing shown of it
        -- can outlast its change.
        cases derived :
            Flow.ofOperations? (ledger.operationsOf group) with
        | none => exact (empty (none_iff.1 derived)).elim
        | some flow =>
            by_cases hidden : flow.hidden = true
            · simp [empty, derived, hidden, Option.filter]
            · simp [empty, derived, hidden, Option.filter,
                Flow.atRevision]

theorem contains_membersOf_refresh (other : FlowId) (id : OperationId) :
    ((ledger.refresh flowId).membersOf other).contains id =
      (ledger.membersOf other).contains id := by
  unfold membersOf
  rw [groups_refresh]
  by_cases same : other = flowId
  · subst same
    simp only [↓reduceIte]
    cases found : ledger.groups.get? other with
    | none => rfl
    | some group =>
        by_cases empty : group.members.isEmpty = true
        · have absent := (Table.isEmpty_iff group.members).1 empty id
          simp [empty, Table.contains, absent, Group.empty,
            Option.filter]
        · simp [empty, Option.filter]
  · simp [same]

variable {ledger}

theorem Indexed.refresh (indexed : ledger.Indexed) :
    (ledger.refresh flowId).Indexed where
  own := by
    intro id operation found
    rw [tracked_refresh] at found
    rw [accepts_refresh]
    exact indexed.own found
  members := by
    intro other id
    rw [contains_membersOf_refresh, tracked_refresh]
    exact indexed.members other id
  revision_le := by
    intro other group found
    rw [revisionCount_refresh]
    rw [groups_refresh] at found
    split at found
    · exact indexed.revision_le (Option.filter_eq_some_iff.1 found).1
    · exact indexed.revision_le found

/-- Deriving a flow anew leaves what is derived from every group. -/
theorem derived?_refresh (indexed : ledger.Indexed) (other : FlowId) :
    (ledger.refresh flowId).derived? other = ledger.derived? other := by
  have operations (group : Group) :
      (ledger.refresh flowId).operationsOf group =
        ledger.operationsOf group := by
    unfold operationsOf
    rw [tracked_refresh]
  unfold derived?
  simp only [operations, groups_refresh]
  by_cases same : other = flowId
  · subst same
    simp only [↓reduceIte]
    cases found : ledger.groups.get? other with
    | none => rfl
    | some group =>
        by_cases empty : group.members.isEmpty = true
        · have nothing :=
            (Flow.ofOperations?_eq_none_iff _).2
              ((operationsOf_eq_nil_iff indexed found).2 empty)
          simp [empty, nothing, Option.filter]
        · simp [empty, Option.filter]
  · simp [same]

end Refresh

/-- What is left of a ledger after flows have been derived anew. -/
structure Refreshed
    (before : Ledger)
    (flowIds : List FlowId)
    (after : Ledger) : Prop where
  indexed : after.Indexed
  tracked : after.tracked = before.tracked
  accepts : after.accepts = before.accepts
  listeners : after.listeners = before.listeners
  revisionCount : after.revisionCount = before.revisionCount
  groups :
    ∀ flowId,
      after.groups.get? flowId =
        if flowId ∈ flowIds then
          (before.groups.get? flowId).filter
            fun group => !group.members.isEmpty
        else
          before.groups.get? flowId
  visible :
    ∀ flowId,
      after.visible.get? flowId =
        if flowId ∈ flowIds then
          before.derived? flowId
        else
          before.visible.get? flowId
  derived :
    ∀ flowId, after.derived? flowId = before.derived? flowId

/-- Deriving flows anew drops empty groups and shows what is derived. -/
theorem refreshed_foldl
    {ledger : Ledger}
    (indexed : ledger.Indexed)
    (flowIds : List FlowId) :
    Refreshed ledger flowIds (flowIds.foldl refresh ledger) := by
  induction flowIds generalizing ledger with
  | nil =>
      exact ⟨indexed, rfl, rfl, rfl, rfl, fun _ => rfl, fun _ => rfl,
        fun _ => rfl⟩
  | cons first rest inductionHypothesis =>
      have later := inductionHypothesis (indexed.refresh first)
      refine ⟨later.indexed, ?_, ?_, ?_, ?_, ?_, ?_, ?_⟩
      · exact later.tracked.trans (tracked_refresh ledger first)
      · exact later.accepts.trans (accepts_refresh ledger first)
      · exact later.listeners.trans (listeners_refresh ledger first)
      · exact later.revisionCount.trans
          (revisionCount_refresh ledger first)
      · intro flowId
        rw [List.foldl_cons, later.groups, groups_refresh]
        by_cases isFirst : flowId = first
        · subst isFirst
          simp [Option.filter_filter]
        · simp [isFirst]
      · intro flowId
        rw [List.foldl_cons, later.visible,
          derived?_refresh first indexed, visible_refresh _ _ indexed]
        by_cases isFirst : flowId = first
        · subst isFirst
          simp
        · simp [isFirst]
      · intro flowId
        rw [List.foldl_cons, later.derived,
          derived?_refresh first indexed]

end Ledger

end BackupHistory
