import BackupHistory.Proofs.Ledger.Item
import BackupHistory.Proofs.Table

namespace BackupHistory.Ledger

/-!
# One item of an event

In the middle of an event the flows that were touched have not been derived
anew, but the groups already agree with what is tracked: that is `Indexed`.
`Batch.Assigned` says all that one item can do, and `Batch.applyItem_cases`
that every item either changes nothing or does just that.
-/

/-- The members of the group of a flow, none if there is no group. -/
def membersOf (ledger : Ledger) (flowId : FlowId) :
    Table OperationId Unit :=
  ((ledger.groups.get? flowId).getD .empty).members

/-- Groups that agree with what is tracked. -/
structure Indexed (ledger : Ledger) : Prop where
  /-- Reports are tracked under their own id, have a flow and are accepted. -/
  own :
    ∀ {id operation},
      ledger.tracked.get? id = some operation →
      operation.id = id ∧
        operation.IsWellFormed ∧
        ledger.accepts operation = true
  /-- The members of a group are the operations tracked with its flow. -/
  members :
    ∀ flowId id,
      (ledger.membersOf flowId).contains id =
        (ledger.tracked.get? id).any fun operation =>
          operation.flowId = flowId
  /-- No group has changed at a revision that is still to come. -/
  revision_le :
    ∀ {flowId group},
      ledger.groups.get? flowId = some group →
      group.revision ≤ ledger.revisionCount

namespace Indexed

variable {ledger : Ledger} {flowId : FlowId} {id : OperationId}

theorem member_iff (indexed : ledger.Indexed) :
    (ledger.membersOf flowId).contains id = true ↔
      ∃ operation,
        ledger.tracked.get? id = some operation ∧
          operation.flowId = flowId := by
  rw [indexed.members]
  cases ledger.tracked.get? id with
  | none => simp
  | some operation => simp

theorem exists_group
    (indexed : ledger.Indexed)
    {operation : Operation}
    (found : ledger.tracked.get? id = some operation) :
    ∃ group, ledger.groups.get? operation.flowId = some group := by
  have member :
      (ledger.membersOf operation.flowId).contains id = true :=
    indexed.member_iff.2 ⟨operation, found, rfl⟩
  cases shape : ledger.groups.get? operation.flowId with
  | some group => exact ⟨group, rfl⟩
  | none =>
      have noMember :
          (ledger.membersOf operation.flowId).contains id = false := by
        unfold membersOf
        rw [shape]
        rfl
      rw [noMember] at member
      cases member

end Indexed

theorem membersOf_of_group
    {ledger : Ledger}
    {flowId : FlowId}
    {group : Group}
    (found : ledger.groups.get? flowId = some group) :
    ledger.membersOf flowId = group.members := by
  unfold membersOf
  rw [found]
  rfl

theorem indexed_new (accepts : Operation → Bool) :
    (new accepts).Indexed where
  own found := by cases found
  members _ _ := rfl
  revision_le found := by cases found

namespace Batch

/-- The flow that an operation is tracked with. -/
def flowOf (slot : Option Operation) : List FlowId :=
  slot.toList.map Operation.flowId

/-- The flows that an operation leaves and enters. -/
def flowsBetween (old new : Option Operation) : List FlowId :=
  flowOf old ++ flowOf new

/--
All that happens when the tracked report of an operation becomes another one.

Groups of flows that the operation neither leaves nor enters stay as they are,
and those of the others have a revision that was not handed out before.
-/
structure Assigned
    (before : Batch)
    (id : OperationId)
    (slot : Option Operation)
    (after : Batch) : Prop where
  accepts : after.ledger.accepts = before.ledger.accepts
  visible : after.ledger.visible = before.ledger.visible
  listeners : after.ledger.listeners = before.ledger.listeners
  subscriptionCount :
    after.ledger.subscriptionCount = before.ledger.subscriptionCount
  ids : after.ids = appendNew before.ids id
  flowIds :
    after.flowIds =
      (flowsBetween (before.ledger.tracked.get? id) slot).foldl
        appendNew before.flowIds
  tracked :
    ∀ other,
      after.ledger.tracked.get? other =
        if other = id then slot else before.ledger.tracked.get? other
  members :
    ∀ flowId other,
      (after.ledger.membersOf flowId).contains other =
        if other = id then
          slot.any fun operation => operation.flowId = flowId
        else
          (before.ledger.membersOf flowId).contains other
  untouched :
    ∀ {flowId},
      flowId ∉ flowsBetween (before.ledger.tracked.get? id) slot →
      after.ledger.groups.get? flowId = before.ledger.groups.get? flowId
  touched :
    ∀ {flowId},
      flowId ∈ flowsBetween (before.ledger.tracked.get? id) slot →
      ∃ group,
        after.ledger.groups.get? flowId = some group ∧
          before.ledger.revisionCount < group.revision ∧
          group.revision ≤ after.ledger.revisionCount
  revisionCount :
    before.ledger.revisionCount ≤ after.ledger.revisionCount

/-- Let an operation be tracked by a report, or not at all. -/
def assign
    (id : OperationId)
    (slot : Option Operation)
    (batch : Batch) :
    Batch :=
  match slot with
  | none => batch.remove id
  | some operation =>
      match batch.ledger.tracked.get? operation.id with
      | none => batch.track operation
      | some existing => batch.replace existing operation

/-- Apply one item of an event. -/
def applyItem (batch : Batch) : Event.Item → Batch
  | .report operation => batch.upsert operation
  | .deletion id => batch.remove id

theorem apply_eq_foldl (batch : Batch) (event : Event) :
    batch.apply event = event.items.foldl applyItem batch := by
  cases event <;> simp only [apply, Event.items, List.foldl_map] <;> rfl

/-- An item is ignored or its verdict is assigned. -/
theorem applyItem_eq (batch : Batch) (item : Event.Item) :
    batch.applyItem item =
      if item.isIgnored batch.ledger.accepts
          (batch.ledger.tracked.get? item.target) then
        batch
      else
        batch.assign item.target
          (item.verdict batch.ledger.accepts) := by
  cases item with
  | deletion id => rfl
  | report operation =>
      by_cases wellFormed : operation.IsWellFormed
      · rcases untracked :
            batch.ledger.tracked.get? operation.id with _ | existing
        · by_cases accepted : batch.ledger.accepts operation = true
          · simp [applyItem, upsert, Event.Item.isIgnored,
              Event.Item.target, Event.Item.verdict, assign,
              wellFormed, accepted, untracked]
          · simp [applyItem, upsert, Event.Item.isIgnored,
              Event.Item.target, Event.Item.verdict, assign, remove,
              wellFormed, accepted, untracked]
        · by_cases older : operation.version < existing.version
          · simp [applyItem, upsert, Event.Item.isIgnored,
              Event.Item.target, wellFormed, untracked, older,
              Int64.not_le.2 older]
          · have notOlder := Int64.not_lt.1 older
            by_cases accepted : batch.ledger.accepts operation = true
            · by_cases same : existing.sameContent operation = true <;>
                simp [applyItem, upsert, Event.Item.isIgnored,
                  Event.Item.target, Event.Item.verdict, assign,
                  wellFormed, untracked, older, accepted, same]
            · simp [applyItem, upsert, Event.Item.isIgnored,
                Event.Item.target, Event.Item.verdict, assign,
                wellFormed, untracked, older, accepted, notOlder]
      · simp [applyItem, upsert, Event.Item.isIgnored, wellFormed]

@[simp] theorem groups_putGroup
    (flowId : FlowId)
    (members : Table OperationId Unit)
    (batch : Batch)
    (other : FlowId) :
    (batch.putGroup flowId members).ledger.groups.get? other =
      if other = flowId then
        some ⟨members, batch.ledger.revisionCount + 1⟩
      else
        batch.ledger.groups.get? other := by
  simp [putGroup]

@[simp] theorem membersOf_putGroup
    (flowId : FlowId)
    (members : Table OperationId Unit)
    (batch : Batch)
    (other : FlowId) :
    (batch.putGroup flowId members).ledger.membersOf other =
      if other = flowId then
        members
      else
        batch.ledger.membersOf other := by
  unfold membersOf
  rw [groups_putGroup]
  split <;> rfl

theorem detach_of_group
    {batch : Batch}
    {flowId : FlowId}
    {group : Group}
    (found : batch.ledger.groups.get? flowId = some group)
    (id : OperationId) :
    batch.detach flowId id =
      batch.putGroup flowId ((batch.ledger.membersOf flowId).erase id) := by
  unfold detach
  rw [found, membersOf_of_group found]

/-- A batch whose ledger tracks other reports. -/
def withTracked
    (tracked : Table OperationId Operation)
    (batch : Batch) :
    Batch :=
  { batch with ledger := { batch.ledger with tracked := tracked } }

@[simp] theorem ledger_touchOperation (id : OperationId) (batch : Batch) :
    (batch.touchOperation id).ledger = batch.ledger :=
  rfl

@[simp] theorem groups_withTracked
    (tracked : Table OperationId Operation)
    (batch : Batch) :
    (batch.withTracked tracked).ledger.groups = batch.ledger.groups :=
  rfl

@[simp] theorem membersOf_withTracked
    (tracked : Table OperationId Operation)
    (batch : Batch)
    (flowId : FlowId) :
    (batch.withTracked tracked).ledger.membersOf flowId =
      batch.ledger.membersOf flowId :=
  rfl

@[simp] theorem revisionCount_withTracked
    (tracked : Table OperationId Operation)
    (batch : Batch) :
    (batch.withTracked tracked).ledger.revisionCount =
      batch.ledger.revisionCount :=
  rfl

@[simp] theorem revisionCount_putGroup
    (flowId : FlowId)
    (members : Table OperationId Unit)
    (batch : Batch) :
    (batch.putGroup flowId members).ledger.revisionCount =
      batch.ledger.revisionCount + 1 :=
  rfl

@[simp] theorem tracked_putGroup
    (flowId : FlowId)
    (members : Table OperationId Unit)
    (batch : Batch) :
    (batch.putGroup flowId members).ledger.tracked =
      batch.ledger.tracked :=
  rfl

@[simp] theorem tracked_withTracked
    (tracked : Table OperationId Operation)
    (batch : Batch) :
    (batch.withTracked tracked).ledger.tracked = tracked :=
  rfl

theorem track_eq (operation : Operation) (batch : Batch) :
    batch.track operation =
      (((batch.withTracked
              (batch.ledger.tracked.insert operation.id operation)).putGroup
            operation.flowId
            ((batch.ledger.membersOf operation.flowId).insert
              operation.id ())).touchOperation
        operation.id) :=
  rfl

theorem remove_eq
    {batch : Batch}
    (indexed : batch.ledger.Indexed)
    {id : OperationId}
    {existing : Operation}
    (found : batch.ledger.tracked.get? id = some existing) :
    batch.remove id =
      (((batch.withTracked (batch.ledger.tracked.erase id)).putGroup
            existing.flowId
            ((batch.ledger.membersOf existing.flowId).erase
              id)).touchOperation
        id) := by
  obtain ⟨group, groupFound⟩ := indexed.exists_group found
  have sameGroup :
      (batch.withTracked
          (batch.ledger.tracked.erase id)).ledger.groups.get?
            existing.flowId =
        some group :=
    groupFound
  unfold remove
  rw [found]
  change
    touchOperation id
        ((batch.withTracked (batch.ledger.tracked.erase id)).detach
          existing.flowId id) =
      _
  rw [detach_of_group sameGroup]
  rfl

theorem not_member_of_other
    {batch : Batch}
    (indexed : batch.ledger.Indexed)
    {id : OperationId}
    {flowId : FlowId}
    (elsewhere : flowId ∉ flowOf (batch.ledger.tracked.get? id)) :
    (batch.ledger.membersOf flowId).contains id = false := by
  rw [Bool.eq_false_iff, Ne, indexed.member_iff]
  rintro ⟨existing, found, rfl⟩
  apply elsewhere
  simp [found, flowOf]

/-- What ending the tracking of an operation does. -/
theorem assigned_remove
    {batch : Batch}
    (indexed : batch.ledger.Indexed)
    {id : OperationId}
    {existing : Operation}
    (found : batch.ledger.tracked.get? id = some existing) :
    Assigned batch id none (batch.remove id) := by
  rw [remove_eq indexed found]
  constructor
  case accepts => rfl
  case visible => rfl
  case listeners => rfl
  case subscriptionCount => rfl
  case ids => rfl
  case flowIds =>
    rw [found]
    rfl
  case tracked => simp
  case members =>
    intro flowId other
    by_cases left : flowId = existing.flowId
    · simp [left]
    · by_cases same : other = id
      · have elsewhere :
            flowId ∉ flowOf (batch.ledger.tracked.get? id) := by
          simp [flowOf, found, left]
        simp [left, same, not_member_of_other indexed elsewhere]
      · simp [left, same]
  case untouched =>
    intro flowId outside
    have other : flowId ≠ existing.flowId := by
      simpa [found, flowsBetween, flowOf] using outside
    simp [other]
  case touched =>
    intro flowId inside
    have left : flowId = existing.flowId := by
      simpa [found, flowsBetween, flowOf] using inside
    simp [left]
  case revisionCount => simp

theorem appendNew_appendNew [DecidableEq α]
    (elements : List α) (element : α) :
    appendNew (appendNew elements element) element =
      appendNew elements element := by
  have present : element ∈ appendNew elements element :=
    mem_appendNew.2 (.inr rfl)
  rw [appendNew, if_pos present]

/-- What tracking a report does that does not move its operation. -/
theorem assigned_track
    {batch : Batch}
    (indexed : batch.ledger.Indexed)
    {operation : Operation}
    (stays :
      ∀ flowId ∈ flowOf (batch.ledger.tracked.get? operation.id),
        flowId = operation.flowId) :
    Assigned batch operation.id (some operation)
      (batch.track operation) := by
  have between (flowId : FlowId) :
      flowId ∈ flowsBetween
          (batch.ledger.tracked.get? operation.id) (some operation) ↔
        flowId = operation.flowId := by
    unfold flowsBetween
    rw [List.mem_append]
    constructor
    · rintro (left | entered)
      · exact stays flowId left
      · simpa [flowOf] using entered
    · intro entered
      exact .inr (by simp [flowOf, entered])
  rw [track_eq]
  constructor
  case accepts => rfl
  case visible => rfl
  case listeners => rfl
  case subscriptionCount => rfl
  case ids => rfl
  case flowIds =>
    cases found : batch.ledger.tracked.get? operation.id with
    | none => rfl
    | some existing =>
        have same : existing.flowId = operation.flowId :=
          stays existing.flowId (by simp [found, flowOf])
        simp only [flowsBetween, flowOf, Option.toList_some,
          List.map_cons, List.map_nil, List.cons_append, List.nil_append,
          List.foldl_cons, List.foldl_nil, same, appendNew_appendNew]
        rfl
  case tracked => simp
  case members =>
    intro flowId other
    by_cases entered : flowId = operation.flowId
    · simp [entered]
    · by_cases same : other = operation.id
      · have elsewhere :
            flowId ∉ flowOf (batch.ledger.tracked.get? operation.id) :=
          fun left => entered (stays flowId left)
        simp [entered, same, Ne.symm entered,
          not_member_of_other indexed elsewhere]
      · simp [entered, same]
  case untouched =>
    intro flowId outside
    have other := (between flowId).not.1 outside
    simp [other]
  case touched =>
    intro flowId inside
    have entered := (between flowId).1 inside
    simp [entered]
  case revisionCount => simp

/-- What moving an operation to another flow does. -/
theorem assigned_move
    {batch : Batch}
    (indexed : batch.ledger.Indexed)
    {existing operation : Operation}
    (found :
      batch.ledger.tracked.get? operation.id = some existing)
    (moves : existing.flowId ≠ operation.flowId) :
    Assigned batch operation.id (some operation)
      ((batch.detach existing.flowId operation.id).track operation) := by
  have between (flowId : FlowId) :
      flowId ∈ flowsBetween
          (batch.ledger.tracked.get? operation.id) (some operation) ↔
        flowId = existing.flowId ∨ flowId = operation.flowId := by
    simp [found, flowsBetween, flowOf]
  obtain ⟨group, groupFound⟩ := indexed.exists_group found
  rw [detach_of_group groupFound, track_eq]
  constructor
  case accepts => rfl
  case visible => rfl
  case listeners => rfl
  case subscriptionCount => rfl
  case ids => rfl
  case flowIds =>
    rw [found]
    rfl
  case tracked => simp
  case members =>
    intro flowId other
    by_cases entered : flowId = operation.flowId
    · subst entered
      simp [Ne.symm moves]
    · by_cases same : other = operation.id
      · by_cases left : flowId = existing.flowId
        · simp [same, left, moves, Ne.symm moves]
        · have elsewhere :
              flowId ∉
                flowOf (batch.ledger.tracked.get? operation.id) := by
            simp [flowOf, found, left]
          simp [entered, same, left, Ne.symm entered,
            not_member_of_other indexed elsewhere]
      · by_cases left : flowId = existing.flowId
        · simp [same, left, moves]
        · simp [entered, same, left]
  case untouched =>
    intro flowId outside
    obtain ⟨notLeft, notEntered⟩ :=
      not_or.1 ((between flowId).not.1 outside)
    simp [notLeft, notEntered]
  case touched =>
    intro flowId inside
    rcases (between flowId).1 inside with left | entered
    · simp [left, moves]
    · simp only [entered, ledger_touchOperation, groups_putGroup,
        revisionCount_putGroup, revisionCount_withTracked, ↓reduceIte]
      exact ⟨_, rfl, Nat.lt_add_right 1 (Nat.lt_succ_self _),
        Nat.le_refl _⟩
  case revisionCount =>
    simp only [ledger_touchOperation, revisionCount_putGroup,
      revisionCount_withTracked]
    omega

/-- Assigning changes nothing where nothing was and is to be tracked. -/
theorem assign_cases
    {batch : Batch}
    (indexed : batch.ledger.Indexed)
    {id : OperationId}
    {slot : Option Operation}
    (own : ∀ operation, slot = some operation → operation.id = id) :
    (batch.assign id slot = batch ∧
        batch.ledger.tracked.get? id = slot) ∨
      Assigned batch id slot (batch.assign id slot) := by
  cases slot with
  | none =>
      cases found : batch.ledger.tracked.get? id with
      | none =>
          left
          exact ⟨by simp [assign, remove, found], rfl⟩
      | some existing => exact .inr (assigned_remove indexed found)
  | some operation =>
      right
      obtain rfl := own operation rfl
      simp only [assign]
      cases found : batch.ledger.tracked.get? operation.id with
      | none => exact assigned_track indexed (by simp [found, flowOf])
      | some existing =>
          unfold replace
          by_cases stays : existing.flowId = operation.flowId
          · simp only [stays, ↓reduceIte]
            exact assigned_track indexed (by simp [found, flowOf, stays])
          · simp only [stays, ↓reduceIte]
            exact assigned_move indexed found stays

/-- An item changes nothing, or what is tracked of its operation. -/
theorem applyItem_cases
    {batch : Batch}
    (indexed : batch.ledger.Indexed)
    (item : Event.Item) :
    let slot :=
      item.settle batch.ledger.accepts
        (batch.ledger.tracked.get? item.target)
    (batch.applyItem item = batch ∧
        batch.ledger.tracked.get? item.target = slot) ∨
      Assigned batch item.target slot (batch.applyItem item) := by
  intro slot
  rw [applyItem_eq]
  by_cases ignored :
      item.isIgnored batch.ledger.accepts
        (batch.ledger.tracked.get? item.target) = true
  · left
    simp only [ignored, ↓reduceIte, true_and]
    exact (Event.Item.settle_of_isIgnored ignored).symm
  · have settled : slot = item.verdict batch.ledger.accepts :=
      Event.Item.settle_of_not_isIgnored ignored
    rw [if_neg ignored, settled]
    exact assign_cases indexed fun operation verdict =>
      Event.Item.id_of_verdict verdict

end Batch

end BackupHistory.Ledger
