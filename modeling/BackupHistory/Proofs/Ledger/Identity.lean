import BackupHistory.Proofs.Ledger.Tracking

namespace BackupHistory.Ledger

/-!
# What a revision identifies

A cache that knows a flow by its id and its revision has to find the same flow
under them for as long as the ledger lives. Two facts carry this. At any moment
the revisions of groups are positive and no two groups share one: that is
`Numbered`. And a group that is there after some actions is the one that was
there before them, with the same operations, or it has a revision that had not
been handed out by then: that is `Consistent.group_performAll`. Nothing is said
of what happened in between, so the flow may have been emptied, hidden or
disposed of and come back.
-/

/-- Groups that have positive revisions, each its own. -/
structure Numbered (ledger : Ledger) : Prop where
  positive :
    ∀ {flowId group},
      ledger.groups.get? flowId = some group →
      0 < group.revision
  revision_le :
    ∀ {flowId group},
      ledger.groups.get? flowId = some group →
      group.revision ≤ ledger.revisionCount
  unique :
    ∀ {first second : FlowId} {left right : Group},
      ledger.groups.get? first = some left →
      ledger.groups.get? second = some right →
      left.revision = right.revision →
      first = second

namespace Numbered

/-- Groups stay numbered when some are dropped and revisions are skipped. -/
theorem of_groups
    {before after : Ledger}
    (numbered : before.Numbered)
    (kept :
      ∀ {flowId group},
        after.groups.get? flowId = some group →
        before.groups.get? flowId = some group)
    (counted : before.revisionCount ≤ after.revisionCount) :
    after.Numbered where
  positive found := numbered.positive (kept found)
  revision_le found :=
    Nat.le_trans (numbered.revision_le (kept found)) counted
  unique left right same :=
    numbered.unique (kept left) (kept right) same

/-- A group that is put in place takes the next revision. -/
theorem putGroup
    {batch : Batch}
    (numbered : batch.ledger.Numbered)
    (flowId : FlowId)
    (members : Table OperationId Unit) :
    (batch.putGroup flowId members).ledger.Numbered := by
  have placed {other : FlowId} {group : Group}
      (found :
        (batch.putGroup flowId members).ledger.groups.get? other =
          some group) :
      other = flowId ∧
          group.revision = batch.ledger.revisionCount + 1 ∨
        batch.ledger.groups.get? other = some group ∧
          group.revision ≤ batch.ledger.revisionCount := by
    rw [Batch.groups_putGroup] at found
    by_cases same : other = flowId
    · rw [if_pos same] at found
      cases found
      exact .inl ⟨same, rfl⟩
    · rw [if_neg same] at found
      exact .inr ⟨found, numbered.revision_le found⟩
  constructor
  case positive =>
    intro other group found
    rcases placed found with ⟨_, next⟩ | ⟨before, _⟩
    · rw [next]
      exact Nat.succ_pos _
    · exact numbered.positive before
  case revision_le =>
    intro other group found
    rw [Batch.revisionCount_putGroup]
    rcases placed found with ⟨_, next⟩ | ⟨_, bound⟩
    · exact Nat.le_of_eq next
    · exact Nat.le_succ_of_le bound
  case unique =>
    intro first second left right leftFound rightFound same
    rcases placed leftFound with ⟨isFirst, leftNext⟩ | ⟨leftBefore, _⟩
    · rcases placed rightFound with ⟨isSecond, _⟩ | ⟨_, rightBound⟩
      · exact isFirst.trans isSecond.symm
      · omega
    · rcases placed rightFound with ⟨_, rightNext⟩ | ⟨rightBefore, _⟩
      · omega
      · exact numbered.unique leftBefore rightBefore same

section Batch

variable {batch : Batch} (numbered : batch.ledger.Numbered)
include numbered

theorem detach (flowId : FlowId) (id : OperationId) :
    (batch.detach flowId id).ledger.Numbered := by
  unfold Batch.detach
  cases batch.ledger.groups.get? flowId with
  | none => exact numbered.of_groups (fun found => found) (Nat.le_succ _)
  | some group => exact numbered.putGroup flowId _

theorem remove (id : OperationId) :
    (batch.remove id).ledger.Numbered := by
  unfold Batch.remove
  cases batch.ledger.tracked.get? id with
  | none => exact numbered
  | some existing =>
      have untracked :
          (batch.withTracked
            (batch.ledger.tracked.erase id)).ledger.Numbered :=
        numbered.of_groups (fun found => found) (Nat.le_refl _)
      exact untracked.detach existing.flowId id

theorem track (operation : Operation) :
    (batch.track operation).ledger.Numbered := by
  have tracked :
      (batch.withTracked
        (batch.ledger.tracked.insert operation.id
          operation)).ledger.Numbered :=
    numbered.of_groups (fun found => found) (Nat.le_refl _)
  exact tracked.putGroup operation.flowId _

theorem replace (existing operation : Operation) :
    (batch.replace existing operation).ledger.Numbered := by
  unfold Batch.replace
  split
  · exact numbered.track operation
  · exact (numbered.detach existing.flowId operation.id).track operation

theorem assign (id : OperationId) (slot : Option Operation) :
    (batch.assign id slot).ledger.Numbered := by
  cases slot with
  | none => exact numbered.remove id
  | some operation =>
      simp only [Batch.assign]
      cases batch.ledger.tracked.get? operation.id with
      | none => exact numbered.track operation
      | some existing => exact numbered.replace existing operation

theorem applyItem (item : Event.Item) :
    (batch.applyItem item).ledger.Numbered := by
  rw [Batch.applyItem_eq]
  split
  · exact numbered
  · exact numbered.assign item.target _

theorem foldl_applyItem (items : List Event.Item) :
    (items.foldl Batch.applyItem batch).ledger.Numbered := by
  induction items generalizing batch with
  | nil => exact numbered
  | cons item rest inductionHypothesis =>
      exact inductionHypothesis (numbered.applyItem item)

end Batch

end Numbered

theorem numbered_new (accepts : Operation → Bool) :
    (new accepts).Numbered where
  positive found := by cases found
  revision_le found := by cases found
  unique found := by cases found

/-- Flows that are told apart by their ids and revisions at two moments. -/
structure Distinguishes (earlier later : Ledger) : Prop where
  /-- A flow that is shown twice at one revision is the same flow. -/
  flow_eq :
    ∀ {flowId first second},
      earlier.flow? flowId = some first →
      later.flow? flowId = some second →
      first.revision = second.revision →
      first = second
  /-- A flow with operations that became others has a higher revision. -/
  revision_lt :
    ∀ {flowId},
      earlier.operations flowId ≠ [] →
      later.operations flowId ≠ [] →
      earlier.operations flowId ≠ later.operations flowId →
      earlier.revisionOf flowId < later.revisionOf flowId

namespace Consistent

variable {ledger : Ledger}

theorem numbered_perform
    (consistent : ledger.Consistent)
    (numbered : ledger.Numbered)
    (action : Action) :
    (ledger.perform action).Numbered := by
  cases action with
  | ingest event =>
      obtain ⟨_, refreshed⟩ := consistent.indexed.ingested event
      have applied :
          ((Batch.start ledger).apply event).ledger.Numbered := by
        rw [Batch.apply_eq_foldl]
        exact numbered.foldl_applyItem event.items
      refine applied.of_groups ?_
        (Nat.le_of_eq refreshed.revisionCount.symm)
      intro flowId group found
      have left :
          (ledger.ingest event).ledger.groups.get? flowId =
            some group := found
      rw [refreshed.groups] at left
      split at left
      · exact (Option.filter_eq_some_iff.1 left).1
      · exact left
  | subscribe =>
      exact numbered.of_groups (fun found => found) (Nat.le_refl _)
  | unsubscribe id =>
      exact numbered.of_groups (fun found => found) (Nat.le_refl _)
  | dispose =>
      refine numbered.of_groups (fun found => ?_) (Nat.le_refl _)
      cases found

theorem numbered_performAll
    (consistent : ledger.Consistent)
    (numbered : ledger.Numbered)
    (actions : List Action) :
    (ledger.performAll actions).Numbered := by
  induction actions generalizing ledger with
  | nil => exact numbered
  | cons action rest inductionHypothesis =>
      exact inductionHypothesis (consistent.perform action)
        (consistent.numbered_perform numbered action)

/-- A group after an action is unchanged or has a new revision. -/
theorem group_perform
    (consistent : ledger.Consistent)
    (action : Action)
    {flowId : FlowId}
    {group : Group}
    (found : (ledger.perform action).groups.get? flowId = some group) :
    ledger.groups.get? flowId = some group ∧
        (ledger.perform action).operations flowId =
          ledger.operations flowId ∨
      ledger.revisionCount < group.revision := by
  cases action with
  | ingest event =>
      obtain ⟨progress, refreshed⟩ := consistent.indexed.ingested event
      have after :
          (ledger.ingest event).ledger.groups.get? flowId =
            some group := found
      rw [refreshed.groups] at after
      by_cases touched :
          flowId ∈ ((Batch.start ledger).apply event).flowIds
      · obtain ⟨put, putFound, fresh⟩ := progress.touchedGroup touched
        rw [if_pos touched, putFound] at after
        cases (Option.filter_eq_some_iff.1 after).1
        exact .inr fresh
      · rw [if_neg touched, progress.untouchedGroup touched] at after
        have listed :
            (ledger.ingest event).ledger.operations flowId =
              ledger.operations flowId :=
          (refreshed.operations progress.indexed flowId).trans
            (progress.operations_untouched touched)
        exact .inl ⟨after, listed⟩
  | subscribe => exact .inl ⟨found, rfl⟩
  | unsubscribe id => exact .inl ⟨found, rfl⟩
  | dispose => cases found

/-- A group after actions is unchanged or has a new revision. -/
theorem group_performAll
    (consistent : ledger.Consistent)
    (actions : List Action)
    {flowId : FlowId}
    {group : Group}
    (found : (ledger.performAll actions).groups.get? flowId = some group) :
    ledger.groups.get? flowId = some group ∧
        (ledger.performAll actions).operations flowId =
          ledger.operations flowId ∨
      ledger.revisionCount < group.revision := by
  induction actions generalizing ledger with
  | nil => exact .inl ⟨found, rfl⟩
  | cons action rest inductionHypothesis =>
      have counted := consistent.revisionCount_le_perform action
      rcases inductionHypothesis (consistent.perform action) found with
        ⟨between, sameLater⟩ | fresh
      · exact (consistent.group_perform action between).imp_left
          fun ⟨before, same⟩ => ⟨before, sameLater.trans same⟩
      · exact .inr (Nat.lt_of_le_of_lt counted fresh)

end Consistent

section Group

variable {ledger : Ledger} {flowId : FlowId}

theorem exists_group_of_operations
    (inhabited : ledger.operations flowId ≠ []) :
    ∃ group, ledger.groups.get? flowId = some group := by
  cases found : ledger.groups.get? flowId with
  | some group => exact ⟨group, rfl⟩
  | none =>
      refine (inhabited ?_).elim
      unfold operations
      rw [found]

theorem revisionOf_of_group
    {group : Group}
    (found : ledger.groups.get? flowId = some group) :
    ledger.revisionOf flowId = group.revision := by
  unfold revisionOf
  rw [found]
  rfl

end Group

/-- Whatever is done with a ledger, its flows are told apart. -/
theorem Consistent.distinguishes_performAll
    {ledger : Ledger}
    (consistent : ledger.Consistent)
    (actions : List Action) :
    ledger.Distinguishes (ledger.performAll actions) := by
  obtain ⟨after, _⟩ := consistent.performAll actions
  constructor
  case flow_eq =>
    intro flowId first second firstShown secondShown same
    obtain ⟨firstGroup, firstDerived, firstFound, isFirst, rfl⟩ :=
      consistent.exists_group_of_shown firstShown
    obtain ⟨secondGroup, secondDerived, secondFound, isSecond, rfl⟩ :=
      after.exists_group_of_shown secondShown
    have sameRevision : firstGroup.revision = secondGroup.revision := same
    rcases consistent.group_performAll actions secondFound with
      ⟨_, sameOperations⟩ | fresh
    · rw [sameOperations, isFirst] at isSecond
      cases isSecond
      rw [sameRevision]
    · -- A revision that is new by then was not the one shown before.
      have known := consistent.indexed.revision_le firstFound
      omega
  case revision_lt =>
    intro flowId firstInhabited secondInhabited differ
    obtain ⟨firstGroup, firstFound⟩ :=
      exists_group_of_operations firstInhabited
    obtain ⟨secondGroup, secondFound⟩ :=
      exists_group_of_operations secondInhabited
    rw [revisionOf_of_group firstFound, revisionOf_of_group secondFound]
    rcases consistent.group_performAll actions secondFound with
      ⟨_, sameOperations⟩ | fresh
    · exact (differ sameOperations.symm).elim
    · exact Nat.lt_of_le_of_lt
        (consistent.indexed.revision_le firstFound) fresh

/--
Between any two moments in the life of a ledger, the id and the revision of a
flow identify its content, and at any moment every flow with operations has a
positive revision of its own, under which it is shown if it is.
-/
theorem revisionsIdentify_performAll
    (accepts : Operation → Bool)
    (earlier later : List Action) :
    let before := (new accepts).performAll earlier
    let after := before.performAll later
    before.Distinguishes after ∧
    (∀ flowId,
      after.operations flowId ≠ [] →
      0 < after.revisionOf flowId) ∧
    (∀ first second,
      after.operations first ≠ [] →
      after.operations second ≠ [] →
      after.revisionOf first = after.revisionOf second →
      first = second) ∧
    (∀ flowId flow,
      after.flow? flowId = some flow →
      after.operations flowId ≠ [] ∧
        flow.revision = after.revisionOf flowId) := by
  intro before after
  obtain ⟨consistent, _⟩ := (consistent_new accepts).performAll earlier
  obtain ⟨afterConsistent, _⟩ := consistent.performAll later
  have numbered : after.Numbered :=
    consistent.numbered_performAll
      ((consistent_new accepts).numbered_performAll
        (numbered_new accepts) earlier)
      later
  refine ⟨consistent.distinguishes_performAll later, ?_, ?_, ?_⟩
  · intro flowId inhabited
    obtain ⟨group, found⟩ := exists_group_of_operations inhabited
    rw [revisionOf_of_group found]
    exact numbered.positive found
  · intro first second firstInhabited secondInhabited same
    obtain ⟨firstGroup, firstFound⟩ :=
      exists_group_of_operations firstInhabited
    obtain ⟨secondGroup, secondFound⟩ :=
      exists_group_of_operations secondInhabited
    rw [revisionOf_of_group firstFound,
      revisionOf_of_group secondFound] at same
    exact numbered.unique firstFound secondFound same
  · intro flowId flow shown
    obtain ⟨group, derived, found, isDerived, rfl⟩ :=
      afterConsistent.exists_group_of_shown shown
    refine ⟨?_, (revisionOf_of_group found).symm⟩
    intro empty
    rw [empty, (Flow.ofOperations?_eq_none_iff []).2 rfl] at isDerived
    cases isDerived

/-- A flow that comes back after everything was disposed of is a new one. -/
example :
    (trackingAll.performAll
      [.ingest (.created [.checkReport 1 1 "nightly"]), .dispose,
        .ingest (.created [.checkReport 1 1 "nightly"])]).revisionOf
        "nightly" =
      2 := by
  decide +kernel

end BackupHistory.Ledger
