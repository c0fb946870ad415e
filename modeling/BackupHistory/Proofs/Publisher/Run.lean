import BackupHistory.Proofs.Ledger.Consistency
import BackupHistory.Publisher.Basic
import Mathlib.Order.Monotone.Basic

namespace BackupHistory.Published

/-!
# Runs of a publisher

Between any two steps of a publisher anybody may use its ledger. `Advance` is
all that one step of the publisher can do, and a run lists the moves of the
publisher and of everybody else, one at a moment.
-/

/-- What one step of a publisher does in each of its phases. -/
inductive Advance (now : Nat) (state : Published) : Published → Prop where
  /-- An announcement is taken. -/
  | take {pending : Nat}
      (phase : state.publisher.phase = .waiting)
      (announced : state.publisher.pending = pending + 1) :
      Advance now state
        { ledger := state.ledger
          publisher :=
            { state.publisher with
              pending := pending
              phase := .sleeping (now + state.publisher.debounce) } }
  /-- Nothing will be announced any more. -/
  | stop
      (phase : state.publisher.phase = .waiting)
      (quiet : state.publisher.pending = 0)
      (unsubscribed :
        state.ledger.isSubscribed state.publisher.subscription = false) :
      Advance now state (state.enter .ended)
  | wake {due : Nat}
      (phase : state.publisher.phase = .sleeping due)
      (passed : due ≤ now) :
      Advance now state (state.enter .draining)
  /-- An announcement is dropped. -/
  | drop {pending : Nat}
      (phase : state.publisher.phase = .draining)
      (announced : state.publisher.pending = pending + 1) :
      Advance now state
        { ledger := state.ledger
          publisher := { state.publisher with pending := pending } }
  | drained
      (phase : state.publisher.phase = .draining)
      (quiet : state.publisher.pending = 0) :
      Advance now state (state.enter .reading)
  | read
      (phase : state.publisher.phase = .reading) :
      Advance now state (state.enter (.building state.ledger.flows))
  | build {flows : List Flow} {tree : Tree} {memo : LeafMemo}
      (phase : state.publisher.phase = .building flows)
      (built :
        state.publisher.arrangement.buildWith flows
            state.publisher.memo =
          (tree, memo)) :
      Advance now state
        { ledger := state.ledger
          publisher :=
            { state.publisher with
              memo := memo
              phase := .publishing tree } }
  | publish {tree : Tree}
      (phase : state.publisher.phase = .publishing tree) :
      Advance now state
        { ledger := state.ledger
          publisher :=
            { state.publisher with
              published := tree
              unseen := true
              phase := .waiting } }

/-- A step of a publisher does what its phase says. -/
theorem advance_of_step?
    {now : Nat}
    {state next : Published}
    (stepped : state.step? now = some next) :
    Advance now state next := by
  obtain ⟨ledger, publisher⟩ := state
  obtain ⟨arrangement, debounce, subscription, pending, phase, memo,
    published, unseen⟩ := publisher
  cases phase with
  | waiting =>
      cases pending with
      | zero =>
          simp only [step?] at stepped
          by_cases subscribed : ledger.isSubscribed subscription = true
          · rw [if_pos subscribed] at stepped
            cases stepped
          · rw [if_neg subscribed] at stepped
            cases stepped
            exact .stop rfl rfl (by simpa using subscribed)
      | succ pending =>
          cases stepped
          exact .take rfl rfl
  | sleeping due =>
      simp only [step?] at stepped
      by_cases passed : due ≤ now
      · rw [if_pos passed] at stepped
        cases stepped
        exact .wake rfl passed
      · rw [if_neg passed] at stepped
        cases stepped
  | draining =>
      cases pending with
      | zero =>
          cases stepped
          exact .drained rfl rfl
      | succ pending =>
          cases stepped
          exact .drop rfl rfl
  | reading =>
      cases stepped
      exact .read rfl
  | building flows =>
      cases stepped
      exact .build rfl rfl
  | publishing tree =>
      cases stepped
      exact .publish rfl
  | ended => cases stepped

/-- A publisher only looks at its ledger. -/
theorem Advance.ledger_eq
    {now : Nat}
    {state next : Published}
    (advance : Advance now state next) :
    next.ledger = state.ledger := by
  cases advance <;> rfl

/-- What happens at one moment to a ledger or to its publisher. -/
inductive Move where
  /-- The publisher takes its next step at some time. -/
  | proceed (now : Nat)
  | ingest (event : Event)
  | subscribe
  | unsubscribe (id : SubscriptionId)
  | dispose
  deriving Repr, DecidableEq

/--
What a move leads to, if it can be made.

The subscription of a publisher is known to nobody else who could end it.
-/
def move? (state : Published) : Move → Option Published
  | .proceed now => state.step? now
  | .ingest event => some (state.ingest event).1
  | .subscribe => some { state with ledger := state.ledger.subscribe.1 }
  | .unsubscribe id =>
      if id = state.publisher.subscription then
        none
      else
        some { state with ledger := state.ledger.unsubscribe id }
  | .dispose => some state.dispose

/-- Whether a move reads the flows of the ledger. -/
def isRead (state : Published) (move : Move) : Bool :=
  match move, state.publisher.phase with
  | .proceed _, .reading => true
  | _, _ => false

/-- Whether a move publishes a tree. -/
def isPublication (state : Published) (move : Move) : Bool :=
  match move, state.publisher.phase with
  | .proceed _, .publishing _ => true
  | _, _ => false

/-- States that follow one another by moves. -/
structure Run (first : Published) where
  length : Nat
  move : Nat → Move
  state : Nat → Published
  starts : state 0 = first
  moves :
    ∀ moment < length,
      (state moment).move? (move moment) = some (state (moment + 1))

/-- The state after moves, one after another, if all of them can be made. -/
def moveAll? (state : Published) (moves : List Move) : Option Published :=
  moves.foldlM move? state

theorem moveAll?_append
    (state : Published)
    (earlier later : List Move) :
    state.moveAll? (earlier ++ later) =
      (state.moveAll? earlier).bind (·.moveAll? later) :=
  List.foldlM_append

theorem moveAll?_cons
    {state next : Published}
    {move : Move}
    (moved : state.move? move = some next)
    (later : List Move) :
    state.moveAll? (move :: later) = next.moveAll? later := by
  unfold moveAll?
  rw [List.foldlM_cons, moved]
  rfl

namespace Run

variable {first : Published}

/-- The run of a list of moves that can all be made. -/
def ofMoves
    (first : Published)
    (moves : List Move)
    (possible : (first.moveAll? moves).isSome = true) :
    Run first where
  length := moves.length
  move moment := moves.getD moment .dispose
  state moment := (first.moveAll? (moves.take moment)).getD first
  starts := rfl
  moves := by
    intro moment within
    obtain ⟨last, reached⟩ := Option.isSome_iff_exists.1 possible
    rw [← List.take_append_drop (moment + 1) moves, moveAll?_append]
      at reached
    obtain ⟨after, isAfter, _⟩ := Option.bind_eq_some_iff.1 reached
    rw [isAfter]
    rw [List.take_succ_eq_append_getElem within, moveAll?_append]
      at isAfter
    obtain ⟨state, isState, moved⟩ := Option.bind_eq_some_iff.1 isAfter
    rw [isState]
    simpa [moveAll?, within] using moved

/-- The last moment before a given one at which flows were read. -/
def readBefore (run : Run first) : Nat → Nat
  | 0 => 0
  | moment + 1 =>
      if (run.state moment).isRead (run.move moment) then
        moment
      else
        run.readBefore moment

/-- The moment at which the flows of the published tree were read. -/
def shownFrom (run : Run first) : Nat → Nat
  | 0 => 0
  | moment + 1 =>
      if (run.state moment).isPublication (run.move moment) then
        run.readBefore moment
      else
        run.shownFrom moment

/-- Whether nobody has disposed the ledger by a moment. -/
def Undisposed (run : Run first) (moment : Nat) : Prop :=
  ∀ earlier < moment, run.move earlier ≠ .dispose

instance (run : Run first) (moment : Nat) :
    Decidable (run.Undisposed moment) :=
  inferInstanceAs (Decidable (∀ earlier < moment, _))

theorem readBefore_le (run : Run first) (moment : Nat) :
    run.readBefore moment ≤ moment := by
  induction moment with
  | zero => exact Nat.le_refl 0
  | succ moment inductionHypothesis =>
      unfold readBefore
      split
      · exact Nat.le_succ moment
      · exact Nat.le_succ_of_le inductionHypothesis

theorem readBefore_le_succ (run : Run first) (moment : Nat) :
    run.readBefore moment ≤ run.readBefore (moment + 1) := by
  conv_rhs => unfold readBefore
  split
  · exact run.readBefore_le moment
  · exact Nat.le_refl _

/-- What is published was read no later than what was read last. -/
theorem shownFrom_le_readBefore (run : Run first) (moment : Nat) :
    run.shownFrom moment ≤ run.readBefore moment := by
  induction moment with
  | zero => exact Nat.le_refl 0
  | succ moment inductionHypothesis =>
      have later := run.readBefore_le_succ moment
      unfold shownFrom
      split
      · exact later
      · exact Nat.le_trans inductionHypothesis later

/-- The moments from which trees are shown never go backwards. -/
theorem shownFrom_mono (run : Run first) : Monotone run.shownFrom := by
  apply monotone_nat_of_le_succ
  intro moment
  conv_rhs => unfold shownFrom
  split
  · exact run.shownFrom_le_readBefore moment
  · exact Nat.le_refl _

/-- Flows are read at the start and where a run says so. -/
theorem isRead_readBefore (run : Run first) (moment : Nat) :
    run.readBefore moment = 0 ∨
      (run.state (run.readBefore moment)).isRead
          (run.move (run.readBefore moment)) =
        true := by
  induction moment with
  | zero => exact .inl rfl
  | succ moment inductionHypothesis =>
      unfold readBefore
      by_cases isRead :
          (run.state moment).isRead (run.move moment) = true
      · rw [if_pos isRead]
        exact .inr isRead
      · rw [if_neg isRead]
        exact inductionHypothesis

/-- A published tree is shown from a moment at which flows were read. -/
theorem isRead_shownFrom (run : Run first) (moment : Nat) :
    run.shownFrom moment = 0 ∨
      (run.state (run.shownFrom moment)).isRead
          (run.move (run.shownFrom moment)) =
        true := by
  induction moment with
  | zero => exact .inl rfl
  | succ moment inductionHypothesis =>
      unfold shownFrom
      by_cases isPublication :
          (run.state moment).isPublication (run.move moment) = true
      · rw [if_pos isPublication]
        exact run.isRead_readBefore moment
      · rw [if_neg isPublication]
        exact inductionHypothesis

end Run

end BackupHistory.Published
