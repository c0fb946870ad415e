import BackupHistory.Proofs.Ledger.Revision
import BackupHistory.Proofs.Tree.Plain

namespace BackupHistory

/-!
# Watching a ledger

Somebody builds trees of a ledger's flows from time to time and keeps one memo
for all of them, whatever happens to the ledger in between. The leaf that is
remembered of a flow is the one of its current content if its revision is the
current one: that is `Ledger.Known`, and since no revision is handed out twice
every action keeps it.
-/

/-- What happens while trees of a ledger are built. -/
inductive Watching.Step where
  | act (action : Ledger.Action)
  | build (scope : Tree.Scope) (options : TreeOptions)
  deriving Repr, DecidableEq

namespace Watching

/-- The trees that are built one after another with one memo. -/
def treesWith
    (offset : Int)
    (ledger : Ledger)
    (memo : LeafMemo) :
    List Step → List Tree
  | [] => []
  | .act action :: rest =>
      treesWith offset (ledger.perform action) memo rest
  | .build scope options :: rest =>
      let (tree, memo) :=
        Arrangement.buildWith ⟨scope, offset, options⟩ ledger.flows memo
      tree :: treesWith offset ledger memo rest

/-- The trees that are built one after another, each on its own. -/
def trees (offset : Int) (ledger : Ledger) : List Step → List Tree
  | [] => []
  | .act action :: rest => trees offset (ledger.perform action) rest
  | .build scope options :: rest =>
      Arrangement.build ⟨scope, offset, options⟩ ledger.flows ::
        trees offset ledger rest

end Watching

namespace Ledger

/-- What may be remembered of the flows of a ledger. -/
def Known (offset : Int) (ledger : Ledger) : LeafMemo.Knowledge :=
  fun flowId revision node =>
    revision ≤ ledger.revisionCount ∧
      ∀ flow,
        ledger.visible.get? flowId = some flow →
        flow.revision = revision →
        node = Arrangement.leafNode offset flow

variable {ledger : Ledger}

theorem Consistent.fits_known
    (consistent : ledger.Consistent)
    (offset : Int) :
    (ledger.Known offset).Fits (Arrangement.leafNode offset)
      ledger.flows where
  created := by
    intro flow member
    have shown := consistent.mem_flows_iff.1 member
    refine ⟨consistent.revision_le shown, ?_⟩
    intro other otherShown _
    rw [shown] at otherShown
    cases otherShown
    rfl
  unique := by
    intro flow node member isKnown
    exact isKnown.2 flow (consistent.mem_flows_iff.1 member) rfl

/-- What may be remembered may still be remembered after any action. -/
theorem Consistent.known_perform
    (consistent : ledger.Consistent)
    (offset : Int)
    (action : Action)
    {flowId : FlowId}
    {revision : Nat}
    {node : Node}
    (isKnown : ledger.Known offset flowId revision node) :
    (ledger.perform action).Known offset flowId revision node := by
  obtain ⟨handedOut, right⟩ := isKnown
  refine
    ⟨Nat.le_trans handedOut (consistent.revisionCount_le_perform action),
      ?_⟩
  intro flow shown same
  rcases consistent.visible_perform action shown with before | fresh
  · exact right flow before same
  · rw [same] at fresh
    exact (Nat.not_lt.2 handedOut fresh).elim

theorem Consistent.known_performAll
    (consistent : ledger.Consistent)
    (offset : Int)
    (actions : List Action)
    {flowId : FlowId}
    {revision : Nat}
    {node : Node}
    (isKnown : ledger.Known offset flowId revision node) :
    (ledger.performAll actions).Known offset flowId revision node := by
  induction actions generalizing ledger with
  | nil => exact isKnown
  | cons action rest inductionHypothesis =>
      exact inductionHypothesis (consistent.perform action)
        (consistent.known_perform offset action isKnown)

end Ledger

namespace Watching

/-- A memo that holds what may be remembered cannot be told from none. -/
theorem treesWith_eq_trees_of_holds
    (offset : Int)
    {ledger : Ledger}
    (consistent : ledger.Consistent)
    {memo : LeafMemo}
    (holds : memo.Holds (ledger.Known offset))
    (steps : List Step) :
    treesWith offset ledger memo steps = trees offset ledger steps := by
  induction steps generalizing ledger memo with
  | nil => rfl
  | cons step rest inductionHypothesis =>
      cases step with
      | act action =>
          have stillHolds :
              memo.Holds ((ledger.perform action).Known offset) :=
            holds.imp fun _ _ _ isKnown =>
              consistent.known_perform offset action isKnown
          exact inductionHypothesis (consistent.perform action) stillHolds
      | build scope options =>
          have fits := consistent.fits_known offset
          obtain ⟨after, built, afterHolds⟩ :=
            Arrangement.buildWith_eq_tree ⟨scope, offset, options⟩ fits
              holds
          have plain :=
            Arrangement.build_eq_tree ⟨scope, offset, options⟩
              consistent.distinct_flows
          simp only [treesWith, trees, built, plain]
          rw [inductionHypothesis consistent afterHolds]

/--
The trees of a ledger that are built with one memo, which starts out empty and
outlasts everything, are those that are built without one.
-/
theorem treesWith_eq_trees
    (accepts : Operation → Bool)
    (offset : Int)
    (steps : List Step) :
    treesWith offset (.new accepts) .empty steps =
      trees offset (.new accepts) steps :=
  treesWith_eq_trees_of_holds offset (Ledger.consistent_new accepts)
    LeafMemo.holds_empty steps

end Watching

end BackupHistory
