import BackupHistory.Proofs.Ledger.Revision
import BackupHistory.Proofs.Ledger.Tracking
import Mathlib.Data.List.Nodup

namespace BackupHistory

/-!
# What an event reports

A listener hears of nothing but the reported operations and flows, so these have
to be all that changed. They are: an item that is not ignored changes what is
tracked of its operation and touches a flow, and what is not touched stays. If
an event says one thing about an operation at most, nothing is reported that did
not change. The main statement is `accounted_ingest`.
-/

/-- An event that deletes, or that reports no operation more than once. -/
def Event.SpeaksOnce (event : Event) : Prop :=
  event.kind = .deleted ∨ (event.items.map Event.Item.target).Nodup

instance (event : Event) : Decidable event.SpeaksOnce :=
  inferInstanceAs (Decidable (_ ∨ _))

theorem Event.SpeaksOnce.deletions_or_nodup
    {event : Event}
    (once : event.SpeaksOnce) :
    (∀ item ∈ event.items, ∃ id, item = .deletion id) ∨
      (event.items.map Event.Item.target).Nodup := by
  rcases once with isDeletion | distinct
  · left
    cases event with
    | created operations => cases isDeletion
    | updated operations => cases isDeletion
    | deleted ids =>
        intro item member
        obtain ⟨id, _, rfl⟩ := List.mem_map.1 member
        exact ⟨id, rfl⟩
  · exact .inr distinct

/--
A change that tells all that became different between two ledgers.

Revisions are counted, so the count of the first ledger is the last revision
that was handed out before.
-/
structure Change.AccountsFor
    (change : Change)
    (before after : Ledger) : Prop where
  ids_nodup : change.ids.Nodup
  flowIds_nodup : change.flowIds.Nodup
  operation? :
    ∀ id ∉ change.ids, after.operation? id = before.operation? id
  operations :
    ∀ flowId ∉ change.flowIds,
      after.operations flowId = before.operations flowId
  flow? :
    ∀ flowId ∉ change.flowIds, after.flow? flowId = before.flow? flowId
  revision :
    ∀ flowId ∉ change.flowIds,
      after.revisionOf flowId = before.revisionOf flowId
  fresh :
    ∀ flowId ∈ change.flowIds,
      after.operations flowId ≠ [] →
      before.revisionCount < after.revisionOf flowId

/-- A change that tells nothing that stayed the same between two ledgers. -/
structure Change.IsTight
    (change : Change)
    (before after : Ledger) : Prop where
  operation? :
    ∀ id ∈ change.ids,
      (before.operation? id).map Operation.amounts ≠
        (after.operation? id).map Operation.amounts
  operations :
    ∀ flowId ∈ change.flowIds,
      (before.operations flowId).map Operation.amounts ≠
        (after.operations flowId).map Operation.amounts

namespace Ledger

/-- What a subscriber shows who looks again at the reported flows only. -/
def Outcome.shownAfter
    (outcome : Outcome)
    (shown : FlowId → Option Flow)
    (flowId : FlowId) :
    Option Flow :=
  match outcome.change with
  | none => shown flowId
  | some change =>
      if flowId ∈ change.flowIds then
        outcome.ledger.flow? flowId
      else
        shown flowId

/-- What the subscriber shows after events, one after another. -/
def shownAlong
    (ledger : Ledger)
    (shown : FlowId → Option Flow) :
    List Event → FlowId → Option Flow
  | [] => shown
  | event :: rest =>
      shownAlong (ledger.ingest event).ledger
        ((ledger.ingest event).shownAfter shown) rest

theorem nodup_appendNew [DecidableEq α]
    {elements : List α}
    (nodup : elements.Nodup)
    (element : α) :
    (appendNew elements element).Nodup := by
  unfold appendNew
  by_cases present : element ∈ elements
  · rw [if_pos present]
    exact nodup
  · rw [if_neg present, ← List.concat_eq_append]
    exact nodup.concat present

theorem nodup_foldl_appendNew [DecidableEq α]
    {elements : List α}
    (nodup : elements.Nodup)
    (added : List α) :
    (added.foldl appendNew elements).Nodup := by
  induction added generalizing elements with
  | nil => exact nodup
  | cons first rest inductionHypothesis =>
      exact inductionHypothesis (nodup_appendNew nodup first)

namespace Batch

/-- An item that leaves the content of what is tracked changes nothing. -/
theorem applyItem_of_sameContent
    {batch : Batch}
    {item : Event.Item}
    (same :
      (batch.ledger.tracked.get? item.target).map Operation.amounts =
        (item.settle batch.ledger.accepts
          (batch.ledger.tracked.get? item.target)).map
            Operation.amounts) :
    batch.applyItem item = batch := by
  rw [applyItem_eq]
  by_cases ignored :
      item.isIgnored batch.ledger.accepts
        (batch.ledger.tracked.get? item.target) = true
  · exact if_pos ignored
  · rw [if_neg ignored]
    rw [Event.Item.settle_of_not_isIgnored ignored] at same
    cases item with
    | deletion id =>
        have untracked : batch.ledger.tracked.get? id = none :=
          Option.map_eq_none_iff.1 same
        simp [Event.Item.verdict, Event.Item.target, assign, remove,
          untracked]
    | report operation =>
        by_cases accepted : batch.ledger.accepts operation = true
        · -- A report is heeded only if the tracked one says something else.
          simp only [Event.Item.verdict, accepted, ↓reduceIte,
            Option.map_some, Option.map_eq_some_iff] at same
          obtain ⟨existing, found, equal⟩ := same
          have sameContent : existing.sameContent operation = true :=
            (Operation.sameContent_iff existing operation).2 equal
          refine (ignored ?_).elim
          simp [Event.Item.isIgnored, found, accepted, sameContent]
        · have untracked :
              batch.ledger.tracked.get? operation.id = none := by
            simpa [Event.Item.verdict, Event.Item.target, accepted]
              using same
          simp [Event.Item.verdict, Event.Item.target, accepted, assign,
            remove, untracked]

/-- An item that changes the content of what is tracked is assigned. -/
theorem assigned_of_differ
    {batch : Batch}
    (indexed : batch.ledger.Indexed)
    {item : Event.Item}
    (differ :
      (batch.ledger.tracked.get? item.target).map Operation.amounts ≠
        (item.settle batch.ledger.accepts
          (batch.ledger.tracked.get? item.target)).map
            Operation.amounts) :
    Assigned batch item.target
      (item.settle batch.ledger.accepts
        (batch.ledger.tracked.get? item.target))
      (batch.applyItem item) := by
  rcases applyItem_cases indexed item with ⟨_, same⟩ | assigned
  · exact (differ (congrArg (Option.map Operation.amounts) same)).elim
  · exact assigned

/-- An item changes nothing, or the content of what is tracked. -/
theorem applyItem_eq_or_changes
    {batch : Batch}
    (indexed : batch.ledger.Indexed)
    (item : Event.Item) :
    let old := batch.ledger.tracked.get? item.target
    let slot := item.settle batch.ledger.accepts old
    batch.applyItem item = batch ∨
      Assigned batch item.target slot (batch.applyItem item) ∧
        old.map Operation.amounts ≠ slot.map Operation.amounts := by
  intro old slot
  by_cases same :
      old.map Operation.amounts = slot.map Operation.amounts
  · exact .inl (applyItem_of_sameContent same)
  · exact .inr ⟨assigned_of_differ indexed same, same⟩

/-- An operation that changes leaves or enters a flow. -/
theorem flowsBetween_ne_nil
    {old slot : Option Operation}
    (differ :
      old.map Operation.amounts ≠ slot.map Operation.amounts) :
    flowsBetween old slot ≠ [] := by
  cases old with
  | some existing => simp [flowsBetween, flowOf]
  | none =>
      cases slot with
      | some operation => simp [flowsBetween, flowOf]
      | none => exact (differ rfl).elim

/-- What an event has touched, against what it was applied to. -/
structure Traced (origin : Ledger) (batch : Batch) : Prop where
  progress : Progress origin batch
  ids_nodup : batch.ids.Nodup
  flowIds_nodup : batch.flowIds.Nodup
  untouched :
    ∀ {id},
      id ∉ batch.ids →
      batch.ledger.tracked.get? id = origin.tracked.get? id
  quiet : batch.flowIds = [] → batch = start origin

theorem traced_start {ledger : Ledger} (indexed : ledger.Indexed) :
    Traced ledger (start ledger) where
  progress := progress_start indexed
  ids_nodup := List.nodup_nil
  flowIds_nodup := List.nodup_nil
  untouched _ := rfl
  quiet _ := rfl

theorem Traced.applyItem
    {origin : Ledger}
    {batch : Batch}
    (traced : Traced origin batch)
    (item : Event.Item) :
    Traced origin (batch.applyItem item) := by
  rcases applyItem_eq_or_changes traced.progress.indexed item with
      unchanged | ⟨assigned, differ⟩
  · rw [unchanged]
    exact traced
  · refine ⟨traced.progress.applyItem item, ?_, ?_, ?_, ?_⟩
    · rw [assigned.ids]
      exact nodup_appendNew traced.ids_nodup item.target
    · rw [assigned.flowIds]
      exact nodup_foldl_appendNew traced.flowIds_nodup _
    · intro id outside
      rw [assigned.ids, mem_appendNew, not_or] at outside
      rw [assigned.tracked, if_neg outside.2]
      exact traced.untouched outside.1
    · intro noFlow
      have touched := flowsBetween_ne_nil differ
      obtain ⟨flowId, inside⟩ := List.exists_mem_of_ne_nil _ touched
      have present : flowId ∈ (batch.applyItem item).flowIds := by
        rw [assigned.flowIds, mem_foldl_appendNew]
        exact .inr inside
      rw [noFlow] at present
      cases present

theorem Traced.foldl_applyItem
    {origin : Ledger}
    {batch : Batch}
    (traced : Traced origin batch)
    (items : List Event.Item) :
    Traced origin (items.foldl Batch.applyItem batch) := by
  induction items generalizing batch with
  | nil => exact traced
  | cons item rest inductionHypothesis =>
      exact inductionHypothesis (traced.applyItem item)

/-- An event touches no operation that it says nothing about. -/
theorem target_of_mem_ids
    {origin : Ledger}
    {batch : Batch}
    (progress : Progress origin batch)
    {items : List Event.Item}
    {id : OperationId}
    (touched : id ∈ (items.foldl Batch.applyItem batch).ids) :
    id ∈ batch.ids ∨ id ∈ items.map Event.Item.target := by
  induction items generalizing batch with
  | nil => exact .inl touched
  | cons item rest inductionHypothesis =>
      rw [List.map_cons, List.mem_cons]
      rcases inductionHypothesis (progress.applyItem item) touched with
          before | later
      · rcases applyItem_cases progress.indexed item with
            ⟨unchanged, _⟩ | assigned
        · rw [unchanged] at before
          exact .inl before
        · rw [assigned.ids, mem_appendNew] at before
          exact before.imp_right .inl
      · exact .inr (.inr later)

/-- Everything that was touched became different. -/
structure Tight (origin : Ledger) (batch : Batch) : Prop where
  differ :
    ∀ id ∈ batch.ids,
      (origin.tracked.get? id).map Operation.amounts ≠
        (batch.ledger.tracked.get? id).map Operation.amounts
  between :
    ∀ flowId ∈ batch.flowIds,
      ∃ id ∈ batch.ids,
        flowId ∈
          flowsBetween (origin.tracked.get? id)
            (batch.ledger.tracked.get? id)

/-- What was touched stays different if it is not changed again. -/
theorem Tight.applyItem
    {origin : Ledger}
    {batch : Batch}
    (tight : Tight origin batch)
    (traced : Traced origin batch)
    {item : Event.Item}
    (once :
      item.target ∈ batch.ids → batch.applyItem item = batch) :
    Tight origin (batch.applyItem item) := by
  rcases applyItem_eq_or_changes traced.progress.indexed item with
      unchanged | ⟨assigned, differ⟩
  · rw [unchanged]
    exact tight
  · by_cases again : item.target ∈ batch.ids
    · rw [once again]
      exact tight
    · have old :
          batch.ledger.tracked.get? item.target =
            origin.tracked.get? item.target :=
        traced.untouched again
      have kept {id : OperationId} (inside : id ∈ batch.ids) :
          (batch.applyItem item).ledger.tracked.get? id =
            batch.ledger.tracked.get? id := by
        have other : id ≠ item.target := by
          rintro rfl
          exact again inside
        rw [assigned.tracked, if_neg other]
      constructor
      · intro id inside
        rw [assigned.ids, mem_appendNew] at inside
        rcases inside with before | rfl
        · rw [kept before]
          exact tight.differ id before
        · rw [assigned.tracked, if_pos rfl, ← old]
          exact differ
      · intro flowId inside
        rw [assigned.flowIds, mem_foldl_appendNew] at inside
        rw [assigned.ids]
        rcases inside with before | isBetween
        · obtain ⟨id, touched, isBetween⟩ := tight.between flowId before
          refine ⟨id, mem_appendNew.2 (.inl touched), ?_⟩
          rw [kept touched]
          exact isBetween
        · refine ⟨item.target, mem_appendNew.2 (.inr rfl), ?_⟩
          rw [assigned.tracked, if_pos rfl, ← old]
          exact isBetween

/-- A deleted operation is not tracked until something else is said of it. -/
theorem untracked_of_deletions
    {origin : Ledger}
    (indexed : origin.Indexed)
    {items : List Event.Item}
    (deletions : ∀ item ∈ items, ∃ id, item = .deletion id)
    {id : OperationId}
    (mentioned : id ∈ items.map Event.Item.target) :
    (items.foldl Batch.applyItem (start origin)).ledger.tracked.get? id =
      none := by
  rw [tracked_foldl_applyItem (progress_start indexed)]
  induction items using List.reverseRecOn with
  | nil => cases mentioned
  | append_singleton earlier item inductionHypothesis =>
      obtain ⟨deleted, rfl⟩ := deletions item (by simp)
      rw [Event.Item.about_append, Event.Item.settleAll_append]
      by_cases same : deleted = id
      · subst same
        simp [Event.Item.about, Event.Item.target, Event.Item.settleAll,
          Event.Item.settle, Event.Item.isIgnored, Event.Item.verdict]
      · have before : id ∈ earlier.map Event.Item.target := by
          simpa [Event.Item.target, Ne.symm same] using mentioned
        have nothing :=
          inductionHypothesis
            (fun item member =>
              deletions item (List.mem_append_left _ member))
            before
        simpa [Event.Item.about, Event.Item.target, same,
          Event.Item.settleAll] using nothing

/-- Items that repeat nothing but deletions touch nothing twice. -/
theorem tight_foldl_applyItem
    {origin : Ledger}
    (indexed : origin.Indexed)
    {items : List Event.Item}
    (once :
      (∀ item ∈ items, ∃ id, item = .deletion id) ∨
        (items.map Event.Item.target).Nodup) :
    Tight origin (items.foldl Batch.applyItem (start origin)) := by
  induction items using List.reverseRecOn with
  | nil =>
      constructor
      · intro id inside
        cases inside
      · intro flowId inside
        cases inside
  | append_singleton earlier item inductionHypothesis =>
      have traced := (traced_start indexed).foldl_applyItem earlier
      rw [List.foldl_append]
      have tight :
          Tight origin (earlier.foldl Batch.applyItem (start origin)) := by
        apply inductionHypothesis
        rcases once with deletions | distinct
        · exact .inl fun item member =>
            deletions item (List.mem_append_left _ member)
        · rw [List.map_append] at distinct
          exact .inr distinct.of_append_left
      apply tight.applyItem traced
      intro again
      have mentioned : item.target ∈ earlier.map Event.Item.target :=
        (target_of_mem_ids (progress_start indexed) again).resolve_left
          List.not_mem_nil
      rcases once with deletions | distinct
      · obtain ⟨id, rfl⟩ := deletions item (by simp)
        have untracked :=
          untracked_of_deletions indexed
            (fun item member =>
              deletions item (List.mem_append_left _ member))
            mentioned
        apply applyItem_of_sameContent
        rw [untracked]
        rfl
      · rw [List.map_append] at distinct
        exact
          ((List.nodup_append.1 distinct).2.2 _ mentioned _ (by simp)
            rfl).elim

end Batch

/-- Operations that a flow has with the same content are tracked alike. -/
theorem Indexed.sameContent_of_operations
    {left right : Ledger}
    (leftIndexed : left.Indexed)
    (rightIndexed : right.Indexed)
    {flowId : FlowId}
    (same :
      (left.operations flowId).map Operation.amounts =
        (right.operations flowId).map Operation.amounts)
    {id : OperationId}
    {operation : Operation}
    (found : left.tracked.get? id = some operation)
    (inFlow : operation.flowId = flowId) :
    (left.tracked.get? id).map Operation.amounts =
      (right.tracked.get? id).map Operation.amounts := by
  have own : operation.id = id := (leftIndexed.own found).1
  have listed : operation ∈ left.operations flowId := by
    rw [leftIndexed.mem_operations_iff, own]
    exact ⟨found, inFlow⟩
  have alsoListed :
      operation.amounts ∈
        (right.operations flowId).map Operation.amounts := by
    rw [← same]
    exact List.mem_map_of_mem listed
  obtain ⟨other, member, equal⟩ := List.mem_map.1 alsoListed
  have sameId : other.amounts.id = operation.amounts.id := by
    rw [equal]
  have otherFound :
      right.tracked.get? other.id = some other :=
    (rightIndexed.mem_operations_iff.1 member).1
  have otherOwn : other.id = id := sameId.trans own
  rw [otherOwn] at otherFound
  rw [found, otherFound, Option.map_some, Option.map_some, equal]

section Ingest

variable {ledger : Ledger}

/-- An event that reports nothing changes nothing and tells nobody. -/
theorem Indexed.ingest_of_change_eq_none
    (indexed : ledger.Indexed)
    {event : Event}
    (silent : (ledger.ingest event).change = none) :
    (ledger.ingest event).ledger = ledger ∧
      (ledger.ingest event).notified = [] := by
  have traced :=
    (Batch.traced_start indexed).foldl_applyItem event.items
  rw [← Batch.apply_eq_foldl] at traced
  unfold ingest at silent ⊢
  by_cases quiet :
      ((Batch.start ledger).apply event).flowIds.isEmpty = true
  · have unchanged := traced.quiet (List.isEmpty_iff.1 quiet)
    simp only [quiet, ↓reduceIte, and_true]
    rw [unchanged]
    rfl
  · simp [quiet] at silent

theorem touched_of_change
    {event : Event}
    {change : Change}
    (reported : (ledger.ingest event).change = some change) :
    change.ids = ((Batch.start ledger).apply event).ids ∧
      change.flowIds = ((Batch.start ledger).apply event).flowIds ∧
      (ledger.ingest event).notified = ledger.listeners := by
  unfold ingest at reported ⊢
  by_cases quiet :
      ((Batch.start ledger).apply event).flowIds.isEmpty = true
  · simp [quiet] at reported
  · simp only [quiet, Bool.false_eq_true, ↓reduceIte,
      Option.some.injEq] at reported ⊢
    subst reported
    exact ⟨rfl, rfl, trivial⟩

/-- Nothing changes between ledgers but what the event reports. -/
theorem Consistent.accountsFor_ingest
    (consistent : ledger.Consistent)
    {event : Event}
    {change : Change}
    (reported : (ledger.ingest event).change = some change) :
    change.AccountsFor ledger (ledger.ingest event).ledger := by
  have traced :=
    (Batch.traced_start consistent.indexed).foldl_applyItem event.items
  rw [← Batch.apply_eq_foldl] at traced
  obtain ⟨progress, refreshed⟩ := consistent.indexed.ingested event
  obtain ⟨isIds, isFlowIds, _⟩ := touched_of_change reported
  have after := consistent.ingest event
  have afterOperations (flowId : FlowId) :
      (ledger.ingest event).ledger.operations flowId =
        ((Batch.start ledger).apply event).ledger.operations flowId :=
    refreshed.operations progress.indexed flowId
  constructor
  case ids_nodup =>
    rw [isIds]
    exact traced.ids_nodup
  case flowIds_nodup =>
    rw [isFlowIds]
    exact traced.flowIds_nodup
  case operation? =>
    intro id outside
    rw [isIds] at outside
    unfold operation?
    rw [refreshed.tracked]
    exact traced.untouched outside
  case operations =>
    intro flowId outside
    rw [isFlowIds] at outside
    rw [afterOperations]
    exact progress.operations_untouched outside
  case flow? =>
    intro flowId outside
    rw [isFlowIds] at outside
    unfold flow?
    rw [refreshed.visible, if_neg outside, progress.visible]
  case revision =>
    intro flowId outside
    rw [isFlowIds] at outside
    unfold revisionOf
    rw [refreshed.groups, if_neg outside,
      progress.untouchedGroup outside]
  case fresh =>
    intro flowId inside inhabited
    rw [isFlowIds] at inside
    obtain ⟨put, putFound, newer⟩ := progress.touchedGroup inside
    cases found : (ledger.ingest event).ledger.groups.get? flowId with
    | none =>
        refine (inhabited ?_).elim
        unfold Ledger.operations
        rw [found]
    | some group =>
        have isPut : put = group := by
          rw [refreshed.groups, if_pos inside, putFound] at found
          exact Option.some.inj (Option.filter_eq_some_iff.1 found).1
        unfold revisionOf
        rw [found, ← isPut]
        exact newer

/-- An event that speaks once reports nothing that stayed the same. -/
theorem Consistent.isTight_ingest
    (consistent : ledger.Consistent)
    {event : Event}
    (once : event.SpeaksOnce)
    {change : Change}
    (reported : (ledger.ingest event).change = some change) :
    change.IsTight ledger (ledger.ingest event).ledger := by
  have tight :
      Batch.Tight ledger ((Batch.start ledger).apply event) := by
    rw [Batch.apply_eq_foldl]
    exact Batch.tight_foldl_applyItem consistent.indexed
      once.deletions_or_nodup
  obtain ⟨_, refreshed⟩ := consistent.indexed.ingested event
  obtain ⟨isIds, isFlowIds, _⟩ := touched_of_change reported
  have differ (id : OperationId) (inside : id ∈ change.ids) :
      (ledger.operation? id).map Operation.amounts ≠
        ((ledger.ingest event).ledger.operation? id).map
          Operation.amounts := by
    rw [isIds] at inside
    unfold operation?
    rw [refreshed.tracked]
    exact tight.differ id inside
  refine ⟨differ, ?_⟩
  intro flowId inside same
  rw [isFlowIds] at inside
  obtain ⟨id, touched, isBetween⟩ := tight.between flowId inside
  rw [← isIds] at touched
  rw [← refreshed.tracked] at isBetween
  -- The flow has the operation on one side, and so by its content on both.
  rcases List.mem_append.1 isBetween with left | entered
  · obtain ⟨operation, found, inFlow⟩ := List.mem_map.1 left
    exact differ id touched
      (consistent.indexed.sameContent_of_operations refreshed.indexed
        same (Option.mem_toList.1 found) inFlow)
  · obtain ⟨operation, found, inFlow⟩ := List.mem_map.1 entered
    exact differ id touched
      (refreshed.indexed.sameContent_of_operations consistent.indexed
        same.symm (Option.mem_toList.1 found) inFlow).symm

/-- Looking again at the reported flows is enough. -/
theorem Consistent.shownAfter_eq
    (consistent : ledger.Consistent)
    (event : Event) :
    (ledger.ingest event).shownAfter ledger.flow? =
      (ledger.ingest event).ledger.flow? := by
  funext flowId
  unfold Outcome.shownAfter
  cases reported : (ledger.ingest event).change with
  | none =>
      rw [(consistent.indexed.ingest_of_change_eq_none reported).1]
  | some change =>
      have accounts := consistent.accountsFor_ingest reported
      by_cases inside : flowId ∈ change.flowIds
      · exact if_pos inside
      · exact (if_neg inside).trans (accounts.flow? flowId inside).symm

/-- Whoever looks again at the reported flows only never falls behind. -/
theorem Consistent.shownAlong_eq
    (consistent : ledger.Consistent)
    (events : List Event) :
    ledger.shownAlong ledger.flow? events =
      (ledger.ingestAll events).flow? := by
  induction events generalizing ledger with
  | nil => rfl
  | cons event rest inductionHypothesis =>
      unfold shownAlong
      rw [consistent.shownAfter_eq]
      exact inductionHypothesis (consistent.ingest event)

end Ingest

/--
After any actions on a new ledger, an event that reports nothing leaves the
ledger as it is and tells nobody, and what an event reports is what changed. The
revisions that it hands out are above all that came before, and a subscriber who
looks at nothing but the reported flows shows what the ledger shows.
-/
theorem accounted_ingest
    (accepts : Operation → Bool)
    (actions : List Action)
    (event : Event) :
    let ledger := (new accepts).performAll actions
    let outcome := ledger.ingest event
    (outcome.change = none →
      outcome.ledger = ledger ∧ outcome.notified = []) ∧
    (∀ change,
      outcome.change = some change →
      change.AccountsFor ledger outcome.ledger ∧
        (event.SpeaksOnce → change.IsTight ledger outcome.ledger)) ∧
    (∀ earlier,
      earlier <+: actions →
      ∀ flowId,
        ((new accepts).performAll earlier).revisionOf flowId ≤
          ledger.revisionCount) ∧
    (∀ events,
      ledger.shownAlong ledger.flow? events =
        (ledger.ingestAll events).flow?) := by
  intro ledger outcome
  obtain ⟨consistent, _⟩ := (consistent_new accepts).performAll actions
  refine ⟨consistent.indexed.ingest_of_change_eq_none, ?_, ?_,
    consistent.shownAlong_eq⟩
  · intro change reported
    exact ⟨consistent.accountsFor_ingest reported,
      fun once => consistent.isTight_ingest once reported⟩
  · rintro earlier ⟨later, rfl⟩ flowId
    obtain ⟨before, _⟩ := (consistent_new accepts).performAll earlier
    have counted := before.revisionCount_le_performAll later
    refine Nat.le_trans (before.revisionOf_le flowId) ?_
    unfold performAll at counted
    rw [← List.foldl_append] at counted
    exact counted

/-- A check that goes to another flow is reported with both of them. -/
theorem accounted_movedCheck :
    let ledger :=
      trackingAll.ingestAll [.created [.checkReport 1 1 "nightly"]]
    let moved := Event.updated [.checkReport 1 2 "weekly"]
    let change : Change := ⟨[1], ["nightly", "weekly"], .updated⟩
    moved.SpeaksOnce ∧
      (ledger.ingest moved).change = some change ∧
      change.AccountsFor ledger (ledger.ingest moved).ledger ∧
      change.IsTight ledger (ledger.ingest moved).ledger ∧
      (ledger.ingest (.created [.checkReport 1 1 "nightly"])).ledger =
        ledger := by
  intro ledger moved change
  let actions : List Action :=
    [.ingest (.created [.checkReport 1 1 "nightly"])]
  obtain ⟨_, told, _⟩ := accounted_ingest (fun _ => true) actions moved
  obtain ⟨silent, _⟩ :=
    accounted_ingest (fun _ => true) actions
      (.created [.checkReport 1 1 "nightly"])
  have once : moved.SpeaksOnce := by decide +kernel
  have reported : (ledger.ingest moved).change = some change := by
    decide +kernel
  have repeated :
      (ledger.ingest (.created [.checkReport 1 1 "nightly"])).change =
        none := by
    decide +kernel
  obtain ⟨accounts, tight⟩ := told change reported
  exact ⟨once, reported, accounts, tight once, (silent repeated).1⟩

end Ledger

end BackupHistory
