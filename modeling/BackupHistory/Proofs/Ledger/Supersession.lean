import BackupHistory.Proofs.Ledger.Tracking

namespace BackupHistory

/-!
# Superseded versions

A report is compared with nothing but the tracked one, and a report that is not
accepted leaves nothing tracked that could be compared with later ones. So an
operation that is never deleted keeps up with a report of it until a report that
is no older fails the filter, as `keepsUp_or_dismissed` states, and then an old
report can come back, as `startedHook_comesBack` shows.
-/

namespace Operation

/-- A report that fails the filter and is no older than another one. -/
structure Dismisses
    (accepts : Operation → Bool)
    (rejected reported : Operation) : Prop where
  id : rejected.id = reported.id
  wellFormed : rejected.IsWellFormed
  unaccepted : accepts rejected = false
  version_le : reported.version ≤ rejected.version

/-- A hook that runs as part of the nightly flow. -/
def hookReport
    (id : OperationId)
    (version : Int64)
    (status : Status) :
    Operation :=
  { checkReport id version "nightly" with
    status := status
    task := .runHook "notify" "" none }

end Operation

namespace Event.Item

variable {accepts : Operation → Bool} {slot : Option Operation}

/-- A report with a flow is caught up with, or it is not accepted. -/
theorem settle_report_cases
    (accepts : Operation → Bool)
    {reported : Operation}
    (wellFormed : reported.IsWellFormed)
    (slot : Option Operation) :
    (∃ tracked,
        settle accepts slot (.report reported) = some tracked ∧
          reported.version ≤ tracked.version) ∨
      settle accepts slot (.report reported) = none ∧
        accepts reported = false := by
  cases accepted : accepts reported with
  | true =>
      obtain ⟨tracked, settled, covers⟩ :=
        settle_covers_report wellFormed accepted slot
      exact .inl ⟨tracked, settled, covers.version_le⟩
  | false =>
      by_cases ignored :
          (Item.report reported).isIgnored accepts slot = true
      · -- A report that is not accepted is ignored for a newer one only.
        rw [settle_of_isIgnored ignored]
        simp only [isIgnored, wellFormed, decide_true, Bool.not_true,
          Bool.false_or, accepted, Bool.false_and,
          Bool.or_false] at ignored
        obtain ⟨tracked, isTracked, older⟩ :=
          (Option.any_eq_true ..).1 ignored
        exact .inl
          ⟨tracked, isTracked, Int64.le_of_lt (of_decide_eq_true older)⟩
      · rw [settle_of_not_isIgnored ignored]
        exact .inr ⟨by simp [Item.verdict, accepted], rfl⟩

/-- A report leaves a version tracked that is no lower, or dismisses it. -/
theorem settle_some_cases
    (accepts : Operation → Bool)
    (existing reported : Operation) :
    (∃ tracked,
        settle accepts (some existing) (.report reported) =
            some tracked ∧
          existing.version ≤ tracked.version) ∨
      settle accepts (some existing) (.report reported) = none ∧
        reported.IsWellFormed ∧
        accepts reported = false ∧
        existing.version ≤ reported.version := by
  by_cases ignored :
      (Item.report reported).isIgnored accepts (some existing) = true
  · rw [settle_of_isIgnored ignored]
    exact .inl ⟨existing, rfl, Int64.le_refl _⟩
  · rw [settle_of_not_isIgnored ignored]
    have wellFormed := wellFormed_of_not_isIgnored ignored
    have notOlder : existing.version ≤ reported.version := by
      rw [← Int64.not_lt]
      intro older
      exact ignored (by simp [isIgnored, older])
    cases accepted : accepts reported with
    | true =>
        exact .inl
          ⟨reported, by simp [Item.verdict, accepted], notOlder⟩
    | false =>
        exact .inr
          ⟨by simp [Item.verdict, accepted], wellFormed, rfl, notOlder⟩

/--
Items after which a version no lower than a given one is tracked, or of which
one is a report that is not accepted and no older, after which everything that
is tracked was reported.
-/
def KeepUpOrReject
    (accepts : Operation → Bool)
    (version : Int64)
    (items : List Item)
    (slot : Option Operation) : Prop :=
  (∃ tracked,
      settleAll accepts items slot = some tracked ∧
        version ≤ tracked.version) ∨
    ∃ before rejected since,
      items = before ++ .report rejected :: since ∧
        rejected.IsWellFormed ∧
        accepts rejected = false ∧
        version ≤ rejected.version ∧
        ∀ tracked,
          settleAll accepts items slot = some tracked →
          .report tracked ∈ since

/-- Whatever is tracked after a rejected report was reported after it. -/
theorem keepUpOrReject_of_rejected
    {version : Int64}
    {rejected : Operation}
    (settled : settle accepts slot (.report rejected) = none)
    (wellFormed : rejected.IsWellFormed)
    (unaccepted : accepts rejected = false)
    (newer : version ≤ rejected.version)
    (rest : List Item) :
    KeepUpOrReject accepts version (.report rejected :: rest) slot := by
  refine .inr ⟨[], rejected, rest, rfl, wellFormed, unaccepted, newer, ?_⟩
  intro tracked ends
  have restEnds : settleAll accepts rest none = some tracked := by
    rw [← settled]
    exact ends
  rcases exists_report_of_settleAll restEnds with
    ⟨absent, _⟩ | ⟨before, since, rfl, _⟩
  · cases absent
  · simp

theorem KeepUpOrReject.cons
    {version : Int64}
    {item : Item}
    {rest : List Item}
    (later :
      KeepUpOrReject accepts version rest (settle accepts slot item)) :
    KeepUpOrReject accepts version (item :: rest) slot := by
  rcases later with keeps | ⟨before, rejected, since, rfl, rejects⟩
  · exact .inl keeps
  · exact .inr ⟨item :: before, rejected, since, rfl, rejects⟩

/-- Reports keep up with a version that was reached, or one rejects it. -/
theorem keepUpOrReject_of_tracked
    {items : List Item}
    (undeleted : ∀ id, Item.deletion id ∉ items)
    {existing : Operation}
    {version : Int64}
    (reached : version ≤ existing.version) :
    KeepUpOrReject accepts version items (some existing) := by
  induction items generalizing existing with
  | nil => exact .inl ⟨existing, rfl, reached⟩
  | cons item rest inductionHypothesis =>
      cases item with
      | deletion id => exact (undeleted id List.mem_cons_self).elim
      | report reported =>
          rcases settle_some_cases accepts existing reported with
            ⟨tracked, settled, newer⟩ |
              ⟨settled, wellFormed, unaccepted, newer⟩
          · apply KeepUpOrReject.cons
            rw [settled]
            exact inductionHypothesis
              (fun id member =>
                undeleted id (List.mem_cons_of_mem _ member))
              (Int64.le_trans reached newer)
          · exact keepUpOrReject_of_rejected settled wellFormed
              unaccepted (Int64.le_trans reached newer) rest

/-- A report and those after it keep up with it, or one rejects it. -/
theorem keepUpOrReject_report
    {reported : Operation}
    (wellFormed : reported.IsWellFormed)
    {later : List Item}
    (undeleted : ∀ id, Item.deletion id ∉ later)
    (slot : Option Operation) :
    KeepUpOrReject accepts reported.version (.report reported :: later)
      slot := by
  rcases settle_report_cases accepts wellFormed slot with
    ⟨tracked, settled, newer⟩ | ⟨settled, unaccepted⟩
  · apply KeepUpOrReject.cons
    rw [settled]
    exact keepUpOrReject_of_tracked undeleted newer
  · exact keepUpOrReject_of_rejected settled wellFormed unaccepted
      (Int64.le_refl _) later

end Event.Item

namespace Ledger

/-- A ledger whose every version of an operation is at least a report's. -/
structure KeepsUpWith (ledger : Ledger) (reported : Operation) : Prop where
  tracked : ∃ operation, ledger.operation? reported.id = some operation
  version_le :
    ∀ operation,
      ledger.Presents operation →
      operation.id = reported.id →
      reported.version ≤ operation.version

/-- A report is kept up with until a report that is no older is rejected. -/
theorem Consistent.keepsUp_or_rejects
    {ledger : Ledger}
    (consistent : ledger.Consistent)
    (events : List Event)
    {reported : Operation}
    {earlier later : List Event.Item}
    (ingested :
      Event.itemsOf events = earlier ++ .report reported :: later)
    (wellFormed : reported.IsWellFormed)
    (undeleted :
      Event.Item.deletion reported.id ∉ Event.itemsOf events) :
    (ledger.ingestAll events).KeepsUpWith reported ∨
      ∃ between rejected since,
        .report reported :: later =
            between ++ .report rejected :: since ∧
          rejected.Dismisses ledger.accepts reported ∧
          ∀ operation,
            (ledger.ingestAll events).Presents operation →
            operation.id = reported.id →
            .report operation ∈ since := by
  obtain ⟨after, _⟩ := consistent.ingestAll events
  -- All that is said of the operation from the report on.
  have told :
      Event.Item.about reported.id (.report reported :: later) =
        .report reported :: Event.Item.about reported.id later :=
    Event.Item.about_cons_of_target rfl later
  have undeletedLater (id : OperationId) :
      Event.Item.deletion id ∉ Event.Item.about reported.id later := by
    intro member
    obtain ⟨inside, isTarget⟩ := List.mem_filter.1 member
    obtain rfl : id = reported.id := of_decide_eq_true isTarget
    rw [ingested] at undeleted
    exact undeleted (List.mem_append_right _ (.tail _ inside))
  have ends :
      (ledger.ingestAll events).operation? reported.id =
        Event.Item.settleAll ledger.accepts
          (Event.Item.about reported.id (.report reported :: later))
          (Event.Item.settleAll ledger.accepts
            (Event.Item.about reported.id earlier)
            (ledger.operation? reported.id)) := by
    rw [consistent.operation?_ingestAll, ingested,
      Event.Item.about_append, Event.Item.settleAll_append]
  have presented {operation : Operation}
      (presents : (ledger.ingestAll events).Presents operation)
      (same : operation.id = reported.id) :
      (ledger.ingestAll events).operation? reported.id =
        some operation := by
    rw [← same]
    exact after.presents_iff.1 presents
  rw [told] at ends
  rcases Event.Item.keepUpOrReject_report wellFormed undeletedLater _ with
    ⟨tracked, isTracked, newer⟩ |
      ⟨before, rejected, since, split, hasFlow, unaccepted, newer,
        dismissed⟩
  · refine .inl ⟨⟨tracked, ends.trans isTracked⟩, ?_⟩
    intro operation presents same
    have isPresented := presented presents same
    rw [ends, isTracked] at isPresented
    cases isPresented
    exact newer
  · rw [← told] at split
    have isAbout :
        Event.Item.report rejected ∈
          Event.Item.about reported.id (.report reported :: later) := by
      rw [split]
      simp
    have sameId : rejected.id = reported.id :=
      of_decide_eq_true (List.mem_filter.1 isAbout).2
    obtain ⟨between, rest, isSplit, _, rfl⟩ :=
      Event.Item.exists_of_about_eq_append split
    refine .inr ⟨between, rejected, rest, isSplit,
      ⟨sameId, hasFlow, unaccepted, newer⟩, ?_⟩
    intro operation presents same
    have member :=
      dismissed operation (ends.symm.trans (presented presents same))
    exact (List.mem_filter.1 member).1

/--
Once a report with a flow has been ingested of an operation that events do not
delete, the operation is tracked and nothing older is presented, or a report
that is no older has failed the filter since and everything that is presented
of the operation was reported after that one.
-/
theorem keepsUp_or_dismissed
    (accepts : Operation → Bool)
    (actions : List Action)
    (events : List Event)
    {reported : Operation}
    {earlier later : List Event.Item}
    (ingested :
      Event.itemsOf events = earlier ++ .report reported :: later)
    (wellFormed : reported.IsWellFormed)
    (undeleted :
      Event.Item.deletion reported.id ∉ Event.itemsOf events) :
    let ledger := ((new accepts).performAll actions).ingestAll events
    ledger.KeepsUpWith reported ∨
      ∃ between rejected since,
        .report reported :: later =
            between ++ .report rejected :: since ∧
          rejected.Dismisses accepts reported ∧
          ∀ operation,
            ledger.Presents operation →
            operation.id = reported.id →
            .report operation ∈ since := by
  intro ledger
  obtain ⟨consistent, sameFilter⟩ :=
    (consistent_new accepts).performAll actions
  have kept :=
    consistent.keepsUp_or_rejects events ingested wellFormed undeleted
  rw [sameFilter] at kept
  exact kept

/-- A check moves to another flow, and its old report arrives afterwards. -/
theorem keepsUp_lateReport :
    let reported := Operation.checkReport 1 2 "weekly"
    let late := Operation.checkReport 1 1 "nightly"
    let events : List Event := [.updated [reported], .created [late]]
    Event.itemsOf events = [] ++ .report reported :: [.report late] ∧
      reported.IsWellFormed ∧
      Event.Item.deletion reported.id ∉ Event.itemsOf events ∧
      (trackingRemarkable.ingestAll events).KeepsUpWith reported := by
  intro reported late events
  have wellFormed : reported.IsWellFormed := by decide
  have undeleted :
      Event.Item.deletion reported.id ∉ Event.itemsOf events := by
    decide
  have ingested :
      Event.itemsOf events = [] ++ .report reported :: [.report late] :=
    rfl
  refine ⟨ingested, wellFormed, undeleted, ?_⟩
  rcases keepsUp_or_dismissed (fun operation => !operation.isUnremarkable)
      [] events ingested wellFormed undeleted with
    keeps | ⟨between, rejected, since, split, dismisses, _⟩
  · exact keeps
  · have member :
        Event.Item.report rejected ∈
          [Event.Item.report reported, .report late] := by
      rw [split]
      simp
    -- Neither of the two reports fails the filter.
    have unaccepted := dismisses.unaccepted
    simp only [List.mem_cons, List.not_mem_nil, or_false,
      Event.Item.report.injEq] at member
    rcases member with rfl | rfl <;> cases unaccepted

/-- A hook that has come to a good end, which the default filter rejects. -/
def finishedHook : Operation :=
  .hookReport 2 1 .success

/-- The older report that it has started. -/
def startedHook : Operation :=
  .hookReport 2 0 .inProgress

/-- The two reports in the wrong order, after one of the flow's check. -/
def lateStart : List Event :=
  [.created [.checkReport 1 0 "nightly"], .updated [finishedHook],
    .created [startedHook]]

/-- The hook is presented as running although it is known to have finished. -/
theorem startedHook_comesBack :
    Event.Item.report finishedHook ∈ Event.itemsOf lateStart ∧
      finishedHook.IsWellFormed ∧
      (∀ event ∈ lateStart, event.kind ≠ .deleted) ∧
      startedHook.id = finishedHook.id ∧
      startedHook.version < finishedHook.version ∧
      let ledger := trackingRemarkable.ingestAll lateStart
      ledger.operation? startedHook.id = some startedHook ∧
        startedHook ∈ ledger.operations "nightly" ∧
        ∃ flow ∈ ledger.flows, startedHook ∈ flow.operations := by
  refine ⟨by decide, by decide, by decide, rfl, by decide, ?_⟩
  intro ledger
  have consistent : ledger.Consistent :=
    ((consistent_new _).ingestAll lateStart).1
  have tracked : ledger.operation? startedHook.id = some startedHook := by
    unfold ledger trackingRemarkable
    rw [(consistent_new _).operation?_ingestAll]
    decide
  have listed : startedHook ∈ ledger.operations "nightly" :=
    consistent.indexed.mem_operations_iff.2 ⟨tracked, rfl⟩
  have shown : (ledger.flow? "nightly").isSome := by
    obtain ⟨before, _⟩ := (consistent_new _).ingestAll (lateStart.take 2)
    obtain ⟨_, refreshed⟩ :=
      before.indexed.ingested (.created [startedHook])
    -- What is tracked does not depend on the flow that is derived from it.
    have held :
        ledger.tracked.values =
          [.checkReport 1 0 "nightly", startedHook] :=
      (congrArg Table.values refreshed.tracked).trans (by decide +kernel)
    unfold flow?
    rw [consistent.visible, consistent.indexed.derived?_eq, held]
    unfold Flow.shown?
    rw [Flow.ofOperations?_of_pairwise (by decide)]
    decide
  obtain ⟨flow, isShown⟩ := Option.isSome_iff_exists.1 shown
  have shownAsOwn := isShown
  rw [← consistent.id_of_visible isShown] at shownAsOwn
  exact ⟨tracked, listed, flow, consistent.mem_flows_iff.2 shownAsOwn,
    (consistent.mem_operations_of_shown isShown).2 listed⟩

end Ledger

end BackupHistory
