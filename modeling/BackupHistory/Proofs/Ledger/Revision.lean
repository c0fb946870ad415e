import BackupHistory.Proofs.Ledger.Consistency

namespace BackupHistory.Ledger

/-!
# Revisions of flows

A flow that an action leaves on show is either the flow that was shown before
or it has a revision that was not handed out before. So nobody who knows a flow
at its revision can be shown another one at the same revision.
-/

variable {ledger : Ledger} {flowId : FlowId} {flow : Flow}

/-- A flow that is shown has the operations and the revision of a group. -/
theorem Consistent.exists_group_of_shown
    (consistent : ledger.Consistent)
    (shown : ledger.flow? flowId = some flow) :
    ∃ group derived,
      ledger.groups.get? flowId = some group ∧
        Flow.ofOperations? (ledger.operations flowId) = some derived ∧
        flow = derived.atRevision group.revision := by
  have derives : ledger.derived? flowId = some flow := by
    rw [← consistent.visible]
    exact shown
  obtain ⟨group, derived, found, isDerived, _, same⟩ :=
    (derived?_eq_some_iff ..).1 derives
  exact ⟨group, derived, found, isDerived, same⟩

/-- A flow that is shown has the operations that are tracked with it. -/
theorem Consistent.mem_operations_of_shown
    (consistent : ledger.Consistent)
    (shown : ledger.flow? flowId = some flow)
    {operation : Operation} :
    operation ∈ flow.operations ↔
      operation ∈ ledger.operations flowId := by
  obtain ⟨group, derived, _, isDerived, rfl⟩ :=
    consistent.exists_group_of_shown shown
  exact Flow.mem_operations_of_ofOperations? isDerived

theorem Consistent.revision_le
    (consistent : ledger.Consistent)
    (shown : ledger.visible.get? flowId = some flow) :
    flow.revision ≤ ledger.revisionCount := by
  rw [consistent.visible] at shown
  obtain ⟨group, derived, found, _, _, rfl⟩ := (derived?_eq_some_iff ..).1 shown
  exact consistent.indexed.revision_le found

theorem Consistent.id_of_visible
    (consistent : ledger.Consistent)
    (shown : ledger.visible.get? flowId = some flow) :
    flow.id = flowId := by
  rw [consistent.visible, consistent.indexed.derived?_eq] at shown
  obtain ⟨derived, isShown, rfl⟩ := Option.map_eq_some_iff.1 shown
  have sameId : derived.id = flowId := Flow.id_of_shown? isShown
  exact sameId

theorem Consistent.mem_flows_iff (consistent : ledger.Consistent) :
    flow ∈ ledger.flows ↔ ledger.visible.get? flow.id = some flow := by
  unfold flows
  rw [Table.mem_values_iff]
  constructor
  · rintro ⟨flowId, shown⟩
    rw [consistent.id_of_visible shown]
    exact shown
  · intro shown
    exact ⟨flow.id, shown⟩

theorem Consistent.distinct_flows (consistent : ledger.Consistent) :
    Flow.Distinct ledger.flows := by
  intro first firstMember second secondMember same
  have firstShown := consistent.mem_flows_iff.1 firstMember
  have secondShown := consistent.mem_flows_iff.1 secondMember
  rw [same, secondShown] at firstShown
  cases firstShown
  rfl

/-- No action takes a revision back. -/
theorem Consistent.revisionCount_le_perform
    (consistent : ledger.Consistent)
    (action : Action) :
    ledger.revisionCount ≤ (ledger.perform action).revisionCount := by
  cases action with
  | ingest event =>
      obtain ⟨progress, refreshed⟩ := consistent.indexed.ingested event
      exact Nat.le_trans progress.revisionCount
        (Nat.le_of_eq refreshed.revisionCount.symm)
  | subscribe => exact Nat.le_refl _
  | unsubscribe id => exact Nat.le_refl _
  | dispose => exact Nat.le_refl _

theorem Consistent.revisionCount_le_performAll
    (consistent : ledger.Consistent)
    (actions : List Action) :
    ledger.revisionCount ≤
      (ledger.performAll actions).revisionCount := by
  induction actions generalizing ledger with
  | nil => exact Nat.le_refl _
  | cons action rest inductionHypothesis =>
      exact Nat.le_trans (consistent.revisionCount_le_perform action)
        (inductionHypothesis (consistent.perform action))

theorem Consistent.revisionOf_le
    (consistent : ledger.Consistent)
    (flowId : FlowId) :
    ledger.revisionOf flowId ≤ ledger.revisionCount := by
  unfold revisionOf
  cases found : ledger.groups.get? flowId with
  | none => exact Nat.zero_le _
  | some group => exact consistent.indexed.revision_le found

/-- A flow that an action leaves on show was there or has a new revision. -/
theorem Consistent.visible_perform
    (consistent : ledger.Consistent)
    (action : Action)
    (shown : (ledger.perform action).visible.get? flowId = some flow) :
    ledger.visible.get? flowId = some flow ∨
      ledger.revisionCount < flow.revision := by
  cases action with
  | ingest event =>
      obtain ⟨progress, refreshed⟩ := consistent.indexed.ingested event
      have shownAfter :
          (ledger.ingest event).ledger.visible.get? flowId = some flow :=
        shown
      rw [refreshed.visible] at shownAfter
      by_cases touched :
          flowId ∈ ((Batch.start ledger).apply event).flowIds
      · rw [if_pos touched] at shownAfter
        obtain ⟨group, derived, found, _, _, rfl⟩ :=
          (derived?_eq_some_iff ..).1 shownAfter
        obtain ⟨put, putFound, fresh⟩ := progress.touchedGroup touched
        rw [putFound] at found
        cases found
        exact .inr fresh
      · rw [if_neg touched, progress.visible] at shownAfter
        exact .inl shownAfter
  | subscribe => exact .inl shown
  | unsubscribe id => exact .inl shown
  | dispose => cases shown

end BackupHistory.Ledger
