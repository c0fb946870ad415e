import BackupHistory.Event
import BackupHistory.Flow
import BackupHistory.Table

namespace BackupHistory

/-!
# Ledgers

A ledger tracks the latest reports of operations, keeps them grouped by flow and
holds the flow of each group that is to be shown. It is a best-effort cache of a
log that the backup engine owns: events may come late, twice or about unknown
operations, and none of this is an error.

Every group carries the revision at which it last changed. Revisions are counted
over the whole life of a ledger, so a flow with a known revision need not be
looked at again. Revisions and subscriptions are counted without bound; counts
of 64 bits give the same numbers until they are used up.
-/

/-- The handle of a subscription. -/
structure SubscriptionId where
  number : Nat
  deriving Repr, DecidableEq

/-- What one event changed. -/
structure Change where
  /-- Operations that were added, replaced or removed. -/
  ids : List OperationId
  /-- Flows that were derived anew, in the order they were first touched. -/
  flowIds : List FlowId
  kind : Event.Kind
  deriving Repr, DecidableEq

/-- The tracked operations of a flow and the revision of their last change. -/
structure Ledger.Group where
  members : Table OperationId Unit
  revision : Nat

/-- The tracked operations, their groups, the flows to be shown and listeners. -/
structure Ledger where
  /-- Which operations are tracked at all. -/
  accepts : Operation → Bool
  tracked : Table OperationId Operation
  groups : Table FlowId Ledger.Group
  visible : Table FlowId Flow
  /-- In the order in which they subscribed. -/
  listeners : List SubscriptionId
  subscriptionCount : Nat
  revisionCount : Nat

namespace Ledger

/-- A group without members that has never changed. -/
def Group.empty : Group :=
  ⟨.empty, 0⟩

def new (accepts : Operation → Bool) : Ledger where
  accepts := accepts
  tracked := .empty
  groups := .empty
  visible := .empty
  listeners := []
  subscriptionCount := 0
  revisionCount := 0

def trackingAll : Ledger :=
  new fun _ => true

/-- A ledger of every operation that is not left out of views. -/
def trackingRemarkable : Ledger :=
  new fun operation => !operation.isUnremarkable

def operation? (ledger : Ledger) (id : OperationId) : Option Operation :=
  ledger.tracked.get? id

/-- The tracked operations of a group in the order of their ids. -/
def operationsOf (ledger : Ledger) (group : Group) : List Operation :=
  group.members.keys.filterMap ledger.tracked.get?

/-- The tracked operations of a flow in the order of their ids. -/
def operations (ledger : Ledger) (flowId : FlowId) : List Operation :=
  match ledger.groups.get? flowId with
  | none => []
  | some group => ledger.operationsOf group

/-- The flow to be shown under an id. -/
def flow? (ledger : Ledger) (flowId : FlowId) : Option Flow :=
  ledger.visible.get? flowId

/-- The flows to be shown in the order of their ids. -/
def flows (ledger : Ledger) : List Flow :=
  ledger.visible.values

/-- Register a listener; every listener is told every change. -/
def subscribe (ledger : Ledger) : Ledger × SubscriptionId :=
  let id : SubscriptionId := ⟨ledger.subscriptionCount + 1⟩
  ({ ledger with
      listeners := ledger.listeners ++ [id]
      subscriptionCount := ledger.subscriptionCount + 1 },
    id)

def unsubscribe (id : SubscriptionId) (ledger : Ledger) : Ledger :=
  { ledger with listeners := ledger.listeners.filter (· != id) }

def isSubscribed (ledger : Ledger) (id : SubscriptionId) : Bool :=
  ledger.listeners.contains id

/-- Drop all listeners and all that is tracked; the counts go on. -/
def dispose (ledger : Ledger) : Ledger :=
  { ledger with
    tracked := .empty
    groups := .empty
    visible := .empty
    listeners := [] }

end Ledger

end BackupHistory
