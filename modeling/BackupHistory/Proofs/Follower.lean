import BackupHistory.Follower
import BackupHistory.Proofs.Ledger.Tracking

namespace BackupHistory

/-!
# Sessions as events

A session is nothing but events that are ingested: the fetched operations as one
event and after it what the selector leaves of the events of the stream, up to
its first failure. Scoping an event drops the reports that the selector does not
accept and no deletions.
-/

namespace Event

/-- Whether an item is left by a selector, as deletions always are. -/
def Item.isWithin (selector : Selector) : Item → Bool
  | .report operation => selector.accepts operation
  | .deletion _ => true

/-- The reports of events in order. -/
def reportsOf (events : List Event) : List Operation :=
  (itemsOf events).filterMap fun item =>
    match item with
    | .report operation => some operation
    | .deletion _ => none

theorem mem_reportsOf_iff
    {events : List Event}
    {operation : Operation} :
    operation ∈ reportsOf events ↔
      Item.report operation ∈ itemsOf events := by
  unfold reportsOf
  rw [List.mem_filterMap]
  constructor
  · rintro ⟨item, member, isReport⟩
    cases item with
    | report other =>
        cases isReport
        exact member
    | deletion id => cases isReport
  · intro member
    exact ⟨.report operation, member, rfl⟩

theorem items_scope? (selector : Selector) (event : Event) :
    itemsOf (event.scope? selector).toList =
      event.items.filter (Item.isWithin selector) := by
  have reports (operations : List Operation) :
      (operations.map Item.report).filter (Item.isWithin selector) =
        (operations.filter selector.accepts).map Item.report := by
    rw [List.filter_map]
    rfl
  have deletions (ids : List OperationId) :
      (ids.map Item.deletion).filter (Item.isWithin selector) =
        ids.map Item.deletion := by
    rw [List.filter_map]
    exact congrArg _ (List.filter_eq_self.2 fun _ _ => rfl)
  -- An event of which nothing is left has no items left either.
  have kept (left : Event) :
      itemsOf (if left.isEmpty then none else some left).toList =
        left.items := by
    cases left with
    | created operations =>
        cases operations <;>
          simp [isEmpty, length, itemsOf, items]
    | updated operations =>
        cases operations <;>
          simp [isEmpty, length, itemsOf, items]
    | deleted ids =>
        cases ids <;>
          simp [isEmpty, length, itemsOf, items]
  cases event with
  | created operations => exact (kept _).trans (reports operations).symm
  | updated operations => exact (kept _).trans (reports operations).symm
  | deleted ids => exact (kept _).trans (deletions ids).symm

/-- What is left of events are the items that are within the selector. -/
theorem itemsOf_filterMap_scope? (selector : Selector)
    (events : List Event) :
    itemsOf (events.filterMap (scope? selector)) =
      (itemsOf events).filter (Item.isWithin selector) := by
  induction events with
  | nil => rfl
  | cons event rest inductionHypothesis =>
      have first := items_scope? selector event
      have both :
          itemsOf (event :: rest) = event.items ++ itemsOf rest := rfl
      rw [both, List.filter_append, ← first, ← inductionHypothesis]
      cases shape : event.scope? selector with
      | none => simp [shape, itemsOf]
      | some left => simp [shape, itemsOf]

end Event

/-- The events that a stream delivers before its first failure. -/
def StreamItem.delivered : List StreamItem → List Event
  | [] => []
  | .failure :: _ => []
  | .event change :: rest => change :: delivered rest

@[simp] theorem StreamItem.delivered_map_event (events : List Event) :
    delivered (events.map .event) = events := by
  induction events with
  | nil => rfl
  | cons event rest inductionHypothesis =>
      rw [List.map_cons, delivered, inductionHypothesis]

/-- The events that a session has a follower ingest. -/
def Session.delivered (selector : Selector) : Session → List Event
  | .refused => []
  | .unfetched => []
  | .served fetched stream =>
      .created fetched ::
        (StreamItem.delivered stream).filterMap (Event.scope? selector)

namespace Follower

/-- Receiving a stream is ingesting what the selector leaves of it. -/
theorem ledger_receive
    (selector : Selector)
    (follower : Follower)
    (stream : List StreamItem) :
    (follower.receive selector stream).ledger =
      follower.ledger.ingestAll
        ((StreamItem.delivered stream).filterMap
          (Event.scope? selector)) := by
  induction stream generalizing follower with
  | nil => rfl
  | cons item rest inductionHypothesis =>
      cases item with
      | failure => rfl
      | event event =>
          unfold receive StreamItem.delivered
          cases shape : event.scope? selector with
          | none =>
              rw [List.filterMap_cons_none shape]
              exact inductionHypothesis follower
          | some left =>
              rw [List.filterMap_cons_some shape]
              exact inductionHypothesis (follower.ingest left)

/-- Attending a session is ingesting what it delivers. -/
theorem ledger_attend
    (selector : Selector)
    (follower : Follower)
    (session : Session) :
    (follower.attend selector session).ledger =
      follower.ledger.ingestAll (session.delivered selector) := by
  cases session with
  | refused => rfl
  | unfetched => rfl
  | served fetched stream =>
      exact
        ledger_receive selector (follower.ingest (.created fetched)) stream

/-- A session that is served settles operations by its items. -/
theorem operation?_attend
    {follower : Follower}
    (consistent : follower.ledger.Consistent)
    (selector : Selector)
    (fetched : List Operation)
    (stream : List StreamItem)
    (id : OperationId) :
    (follower.attend selector (.served fetched stream)).ledger.operation?
        id =
      Event.Item.settleAll follower.ledger.accepts
        (Event.Item.about id
          (fetched.map Event.Item.report ++
            (Event.itemsOf (StreamItem.delivered stream)).filter
              (Event.Item.isWithin selector)))
        (follower.ledger.operation? id) := by
  rw [ledger_attend, consistent.operation?_ingestAll,
    ← Event.itemsOf_filterMap_scope?]
  rfl

end Follower

end BackupHistory
