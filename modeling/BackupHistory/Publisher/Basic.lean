import BackupHistory.Ledger.Ingest
import BackupHistory.Tree.Arrangement

namespace BackupHistory

/-!
# Publishing trees

A publisher keeps the tree of a ledger's flows current. The ledger's changes
come in bursts, so after the first one the publisher waits for a while and folds
all that were announced by then into one tree. It works in small steps, and the
ledger may change between any two of them: it takes an announcement and goes to
sleep, wakes, drops the other announcements one by one, reads the flows, builds
the tree and publishes it. `step?` is one such step, and `settle` is all that
can be taken at one time.
-/

/-- What a publisher is about to do. -/
inductive Publisher.Phase where
  /-- To take the next announcement. -/
  | waiting
  /-- To wake up at a time. -/
  | sleeping (due : Nat)
  /-- To drop the announcements that came in the meantime. -/
  | draining
  /-- To read the flows. -/
  | reading
  /-- To build the tree of the flows it has read. -/
  | building (flows : List Flow)
  /-- To publish a tree. -/
  | publishing (tree : Tree)
  /-- Nothing any more. -/
  | ended

/-- How many steps a publisher is away from its end, if nothing is announced. -/
def Publisher.Phase.rank : Publisher.Phase → Nat
  | .sleeping _ => 6
  | .draining => 5
  | .reading => 4
  | .building _ => 3
  | .publishing _ => 2
  | .waiting => 1
  | .ended => 0

/-- A publisher of the trees of a ledger. -/
structure Publisher where
  arrangement : Arrangement
  /-- The time from the first announcement to the tree. -/
  debounce : Nat
  subscription : SubscriptionId
  /-- The announcements that have not been taken. -/
  pending : Nat
  phase : Publisher.Phase
  memo : LeafMemo
  /-- The tree that was published last. -/
  published : Tree
  /-- Whether it was published after the last look at it. -/
  unseen : Bool

/-- A ledger with a publisher of its trees. -/
structure Published where
  ledger : Ledger
  publisher : Publisher

namespace Published

/-- Subscribe to a ledger and publish its tree at once. -/
def start
    (arrangement : Arrangement)
    (debounce : Nat)
    (ledger : Ledger) :
    Published :=
  let (ledger, subscription) := ledger.subscribe
  let (tree, memo) := arrangement.buildWith ledger.flows .empty
  { ledger := ledger
    publisher :=
      { arrangement := arrangement
        debounce := debounce
        subscription := subscription
        pending := 0
        phase := .waiting
        memo := memo
        published := tree
        unseen := false } }

def enter (state : Published) (phase : Publisher.Phase) : Published :=
  { state with publisher := { state.publisher with phase := phase } }

/-- Ingest an event, which may be announced to the publisher. -/
def ingest (state : Published) (event : Event) :
    Published × Option Change :=
  let outcome := state.ledger.ingest event
  let publisher := state.publisher
  let announced := outcome.notified.contains publisher.subscription
  ({ ledger := outcome.ledger
     publisher :=
       { publisher with
         pending := publisher.pending + (if announced then 1 else 0) } },
    outcome.change)

/-- Dispose the ledger, which takes the publisher's subscription with it. -/
def dispose (state : Published) : Published :=
  { state with ledger := state.ledger.dispose }

/-- The next step of the publisher at a time, if there is one. -/
def step? (now : Nat) (state : Published) : Option Published :=
  let publisher := state.publisher
  match publisher.phase with
  | .waiting =>
      match publisher.pending with
      | pending + 1 =>
          some {
            ledger := state.ledger
            publisher :=
              { publisher with
                pending := pending
                phase := .sleeping (now + publisher.debounce) } }
      | 0 =>
          if state.ledger.isSubscribed publisher.subscription then
            none
          else
            some (state.enter .ended)
  | .sleeping due =>
      if due ≤ now then
        some (state.enter .draining)
      else
        none
  | .draining =>
      match publisher.pending with
      | pending + 1 =>
          some {
            ledger := state.ledger
            publisher := { publisher with pending := pending } }
      | 0 => some (state.enter .reading)
  | .reading => some (state.enter (.building state.ledger.flows))
  | .building flows =>
      let (tree, memo) :=
        publisher.arrangement.buildWith flows publisher.memo
      some {
        ledger := state.ledger
        publisher :=
          { publisher with
            memo := memo
            phase := .publishing tree } }
  | .publishing tree =>
      some {
        ledger := state.ledger
        publisher :=
          { publisher with
            published := tree
            unseen := true
            phase := .waiting } }
  | .ended => none

/-- A bound on the steps that can be taken before time has to pass. -/
def stepBound (state : Published) : Nat :=
  6 * state.publisher.pending + state.publisher.phase.rank

/-- Every step lowers the bound. -/
theorem stepBound_lt_of_step?
    {now : Nat} {state next : Published}
    (stepped : state.step? now = some next) :
    next.stepBound < state.stepBound := by
  obtain ⟨ledger, publisher⟩ := state
  obtain ⟨arrangement, debounce, subscription, pending, phase, memo,
    published, unseen⟩ := publisher
  cases phase with
  | waiting =>
      cases pending with
      | zero =>
          simp only [step?] at stepped
          split at stepped
          · cases stepped
          · cases stepped
            simp [stepBound, enter, Publisher.Phase.rank]
      | succ pending =>
          cases stepped
          simp only [stepBound, Publisher.Phase.rank]
          omega
  | sleeping due =>
      simp only [step?] at stepped
      split at stepped
      · cases stepped
        simp [stepBound, enter, Publisher.Phase.rank]
      · cases stepped
  | draining =>
      cases pending with
      | zero =>
          cases stepped
          simp [stepBound, enter, Publisher.Phase.rank]
      | succ pending =>
          cases stepped
          simp only [stepBound, Publisher.Phase.rank]
          omega
  | reading =>
      cases stepped
      exact Nat.add_lt_add_left (Nat.lt_succ_self 3) _
  | building flows =>
      cases stepped
      exact Nat.add_lt_add_left (Nat.lt_succ_self 2) _
  | publishing tree =>
      cases stepped
      exact Nat.add_lt_add_left (Nat.lt_succ_self 1) _
  | ended => cases stepped

/-- Take all steps that can be taken at a time. -/
def settle (now : Nat) (state : Published) : Published :=
  match _stepped : state.step? now with
  | none => state
  | some next => settle now next
termination_by state.stepBound
decreasing_by exact stepBound_lt_of_step? _stepped

/-- The time at which a sleeping publisher wakes. -/
def due? (state : Published) : Option Nat :=
  match state.publisher.phase with
  | .sleeping due => some due
  | _ => none

/-- Whether the publisher will publish nothing any more. -/
def hasEnded (state : Published) : Bool :=
  match state.publisher.phase with
  | .ended => true
  | _ => false

/-- The ledger without the publisher's subscription. -/
def release (state : Published) : Ledger :=
  state.ledger.unsubscribe state.publisher.subscription

end Published

/-- How a publisher is dropped. -/
inductive Publisher.Drop where
  /-- The ledger is at hand. -/
  | free
  /-- The ledger is in use, and the subscription is removed later. -/
  | locked
  /-- The ledger is in use and nothing is left to remove the subscription. -/
  | abandoned
  deriving Repr, DecidableEq

namespace Published

/-- The ledger right after the publisher is dropped, and later. -/
def drop (state : Published) : Publisher.Drop → Ledger × Ledger
  | .free => (state.release, state.release)
  | .locked => (state.ledger, state.release)
  | .abandoned => (state.ledger, state.ledger)

end Published

end BackupHistory
