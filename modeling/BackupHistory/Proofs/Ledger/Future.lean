import BackupHistory.Proofs.Ledger.Listening

namespace BackupHistory

/-!
# What a ledger will do

Revisions, the order in which flows came up and whatever a ledger tracked once
leave no trace in what it will do. Two ledgers that track the same touch the
same, item by item, whatever else is different between them, and so they report
the same of every event to come. In particular a ledger that was disposed of is
as good as a new one. The main statement is `sameFuture_of_tracked`.
-/

namespace Ledger

/-- What an action reports if it is an event, absent if that changes nothing. -/
def reportOf (ledger : Ledger) : Action → List (Option Change)
  | .ingest event => [(ledger.ingest event).change]
  | _ => []

/-- Ledgers that nobody can tell apart, whatever is done with both from now on. -/
structure SameFuture (left right : Ledger) : Prop where
  /-- Every event to come reports the same change of both, or none of both. -/
  reports :
    ∀ actions, along reportOf left actions = along reportOf right actions
  /-- Every question asked later has the same answer, revisions apart. -/
  alike :
    ∀ actions, (left.performAll actions).Alike (right.performAll actions)

namespace Batch

/-- Batches that track the same and have touched the same, in the same order. -/
structure Paired (left right : Batch) : Prop where
  accepts : left.ledger.accepts = right.ledger.accepts
  tracked :
    ∀ id, left.ledger.tracked.get? id = right.ledger.tracked.get? id
  ids : left.ids = right.ids
  flowIds : left.flowIds = right.flowIds

section Paired

variable {left right : Batch}

/-- Batches stay paired where the same becomes tracked of one operation. -/
theorem Paired.of_assigned
    (paired : Paired left right)
    {id : OperationId}
    {slot : Option Operation}
    {leftAfter rightAfter : Batch}
    (leftAssigned : Assigned left id slot leftAfter)
    (rightAssigned : Assigned right id slot rightAfter) :
    Paired leftAfter rightAfter where
  accepts := by
    rw [leftAssigned.accepts, rightAssigned.accepts]
    exact paired.accepts
  tracked := by
    intro other
    rw [leftAssigned.tracked, rightAssigned.tracked, paired.tracked]
  ids := by rw [leftAssigned.ids, rightAssigned.ids, paired.ids]
  flowIds := by
    rw [leftAssigned.flowIds, rightAssigned.flowIds, paired.tracked,
      paired.flowIds]

/-- An item is ignored by both or has both track and touch the same. -/
theorem Paired.applyItem
    (paired : Paired left right)
    (leftIndexed : left.ledger.Indexed)
    (rightIndexed : right.ledger.Indexed)
    (item : Event.Item) :
    Paired (left.applyItem item) (right.applyItem item) := by
  have slots := paired.tracked item.target
  by_cases same :
      (left.ledger.tracked.get? item.target).map Operation.amounts =
        (item.settle left.ledger.accepts
          (left.ledger.tracked.get? item.target)).map Operation.amounts
  · rw [applyItem_of_sameContent same]
    rw [slots, paired.accepts] at same
    rw [applyItem_of_sameContent same]
    exact paired
  · have leftAssigned := assigned_of_differ leftIndexed same
    rw [slots, paired.accepts] at same leftAssigned
    exact paired.of_assigned leftAssigned
      (assigned_of_differ rightIndexed same)

theorem Paired.foldl_applyItem
    (paired : Paired left right)
    {leftOrigin rightOrigin : Ledger}
    (leftProgress : Progress leftOrigin left)
    (rightProgress : Progress rightOrigin right)
    (items : List Event.Item) :
    Paired (items.foldl Batch.applyItem left)
      (items.foldl Batch.applyItem right) := by
  induction items generalizing left right with
  | nil => exact paired
  | cons item rest inductionHypothesis =>
      exact inductionHypothesis
        (paired.applyItem leftProgress.indexed rightProgress.indexed item)
        (leftProgress.applyItem item) (rightProgress.applyItem item)

end Paired

end Batch

/-- Consistent ledgers with one filter that track the same. -/
structure Twins (left right : Ledger) : Prop where
  leftConsistent : left.Consistent
  rightConsistent : right.Consistent
  accepts : left.accepts = right.accepts
  tracked : ∀ id, left.operation? id = right.operation? id

namespace Twins

variable {left right : Ledger}

/-- Twins touch the same in the course of an event. -/
theorem paired_apply
    (twins : Twins left right)
    (event : Event) :
    Batch.Paired ((Batch.start left).apply event)
      ((Batch.start right).apply event) := by
  have paired : Batch.Paired (Batch.start left) (Batch.start right) :=
    ⟨twins.accepts, twins.tracked, rfl, rfl⟩
  rw [Batch.apply_eq_foldl, Batch.apply_eq_foldl]
  exact paired.foldl_applyItem
    (Batch.progress_start twins.leftConsistent.indexed)
    (Batch.progress_start twins.rightConsistent.indexed) event.items

/-- An event reports what it has touched, and so the same of twins. -/
theorem change_ingest
    (twins : Twins left right)
    (event : Event) :
    (left.ingest event).change = (right.ingest event).change := by
  have paired := twins.paired_apply event
  simp only [Ledger.ingest]
  rw [paired.flowIds, paired.ids]
  split <;> rfl

theorem reportOf_eq
    (twins : Twins left right)
    (action : Action) :
    left.reportOf action = right.reportOf action := by
  cases action with
  | ingest event =>
      exact congrArg (fun change => [change]) (twins.change_ingest event)
  | subscribe => rfl
  | unsubscribe id => rfl
  | dispose => rfl

/-- Twins stay twins, whatever is done with both. -/
theorem perform
    (twins : Twins left right)
    (action : Action) :
    Twins (left.perform action) (right.perform action) where
  leftConsistent := twins.leftConsistent.perform action
  rightConsistent := twins.rightConsistent.perform action
  accepts := by
    rw [accepts_perform twins.leftConsistent,
      accepts_perform twins.rightConsistent]
    exact twins.accepts
  tracked := by
    intro id
    cases action with
    | ingest event =>
        simp only [Ledger.perform]
        rw [twins.leftConsistent.operation?_ingest,
          twins.rightConsistent.operation?_ingest, twins.accepts,
          twins.tracked]
    | subscribe => exact twins.tracked id
    | unsubscribe other => exact twins.tracked id
    | dispose => rfl

theorem performAll
    (twins : Twins left right)
    (actions : List Action) :
    Twins (left.performAll actions) (right.performAll actions) := by
  induction actions generalizing left right with
  | nil => exact twins
  | cons action rest inductionHypothesis =>
      exact inductionHypothesis (twins.perform action)

/-- Twins have the same future. -/
theorem sameFuture (twins : Twins left right) : SameFuture left right where
  reports := by
    intro actions
    induction actions generalizing left right with
    | nil => rfl
    | cons action rest inductionHypothesis =>
        rw [along, along, twins.reportOf_eq,
          inductionHypothesis (twins.perform action)]
  alike := by
    intro actions
    have later := twins.performAll actions
    exact later.leftConsistent.alike later.rightConsistent later.tracked

end Twins

/--
Ledgers with the same filter that track the same, each after actions of its own,
have the same future, and a ledger that is disposed of has the future of a new
one.
-/
theorem sameFuture_of_tracked
    (accepts : Operation → Bool)
    {first second : List Action}
    (tracked :
      ∀ id,
        ((new accepts).performAll first).operation? id =
          ((new accepts).performAll second).operation? id) :
    SameFuture ((new accepts).performAll first)
        ((new accepts).performAll second) ∧
      ∀ actions,
        SameFuture ((new accepts).performAll actions).dispose
          (new accepts) := by
  have isNew := consistent_new accepts
  obtain ⟨firstConsistent, firstAccepts⟩ := isNew.performAll first
  obtain ⟨secondConsistent, secondAccepts⟩ := isNew.performAll second
  have twins :
      Twins ((new accepts).performAll first)
        ((new accepts).performAll second) :=
    ⟨firstConsistent, secondConsistent,
      firstAccepts.trans secondAccepts.symm, tracked⟩
  refine ⟨twins.sameFuture, ?_⟩
  intro actions
  obtain ⟨consistent, sameFilter⟩ := isNew.performAll actions
  have likeNew :
      Twins ((new accepts).performAll actions).dispose (new accepts) :=
    ⟨consistent.perform .dispose, isNew, sameFilter, fun _ => rfl⟩
  exact likeNew.sameFuture

/--
A ledger that was disposed of, and whose check went to another flow and came
back, against one that has never seen anything else.
-/
theorem sameFuture_afterDetours :
    let detours : List Action :=
      [.ingest (.created [.checkReport 7 1 "weekly"]), .dispose, .subscribe,
        .ingest (.created
          [.checkReport 2 1 "monthly", .checkReport 1 1 "nightly"]),
        .ingest (.updated [.checkReport 1 2 "weekly"]),
        .ingest (.deleted [2]),
        .ingest (.updated [.checkReport 1 3 "nightly"])]
    let straight : List Action :=
      [.ingest (.created [.checkReport 1 3 "nightly"])]
    let later : List Action :=
      [.ingest (.updated
          [.checkReport 1 4 "monthly", .checkReport 7 1 "weekly"]),
        .ingest (.created [.checkReport 1 3 "nightly"])]
    (∀ id,
      (trackingAll.performAll detours).operation? id =
        (trackingAll.performAll straight).operation? id) ∧
      (trackingAll.performAll detours).flows ≠
        (trackingAll.performAll straight).flows ∧
      SameFuture (trackingAll.performAll detours)
        (trackingAll.performAll straight) ∧
      along reportOf (trackingAll.performAll detours) later =
        [some ⟨[1, 7], ["nightly", "monthly", "weekly"], .updated⟩,
          none] := by
  intro detours straight later
  have entries :
      (trackingAll.performAll detours).tracked.entries =
        (trackingAll.performAll straight).tracked.entries := by
    decide +kernel
  have tracked (id : OperationId) :
      (trackingAll.performAll detours).operation? id =
        (trackingAll.performAll straight).operation? id := by
    unfold operation? Table.get?
    rw [entries]
  obtain ⟨sameFuture, _⟩ := sameFuture_of_tracked (fun _ => true) tracked
  have revised :
      (trackingAll.performAll detours).flows.map Flow.revision ≠
        (trackingAll.performAll straight).flows.map Flow.revision := by
    decide +kernel
  have reports :
      along reportOf (trackingAll.performAll straight) later =
        [some ⟨[1, 7], ["nightly", "monthly", "weekly"], .updated⟩,
          none] := by
    decide +kernel
  exact ⟨tracked, fun same => revised (congrArg _ same), sameFuture,
    (sameFuture.reports later).trans reports⟩

end Ledger

end BackupHistory
