import BackupHistory.Tree.Basic

namespace BackupHistory

/-!
# Expansion

A policy picks the nodes that start out open. Every list of siblings at the
start depth receives the budget of its own and hands it to the nodes at the
target depth in it and below it, depth first, until it is used up. By default
the most recent few runs of every plan are open.
-/

/-- How many nodes start out open, and where. -/
structure ExpansionPolicy where
  /-- The count of nodes to open in each list of siblings. -/
  budget : Nat
  /-- The depth of the lists that receive a budget. -/
  startDepth : Nat
  /-- The depth of the nodes to open. -/
  targetDepth : Nat
  deriving Repr, DecidableEq

namespace ExpansionPolicy

def defaultBudget : Nat :=
  5

/-- The policy of a view: plans start at the days, repositories above them. -/
def ofScope : Tree.Scope → ExpansionPolicy
  | .plan => ⟨defaultBudget, 0, 1⟩
  | .repository => ⟨defaultBudget, 2, 3⟩

mutual

/-- The keys to open in a node, and the budget that is left. -/
def mark
    (policy : ExpansionPolicy)
    (depth budget : Nat)
    (node : Node) :
    List String × Nat :=
  match node with
  | ⟨key, _, children⟩ =>
      if policy.targetDepth ≤ depth then
        ([key], budget - 1)
      else
        markAll policy (depth + 1) budget children

/-- The keys to open in a list of nodes, and the budget that is left. -/
def markAll
    (policy : ExpansionPolicy)
    (depth budget : Nat) :
    List Node → List String × Nat
  | [] => ([], budget)
  | node :: rest =>
      if budget = 0 then
        ([], 0)
      else
        let (keys, left) := mark policy depth budget node
        let (laterKeys, finallyLeft) := markAll policy depth left rest
        (keys ++ laterKeys, finallyLeft)

end

mutual

/-- The keys to open below a node above the start depth. -/
def allocate
    (policy : ExpansionPolicy)
    (depth : Nat)
    (node : Node) :
    List String :=
  match node with
  | ⟨_, _, children⟩ =>
      if policy.startDepth ≤ depth + 1 then
        (markAll policy (depth + 1) policy.budget children).1
      else
        allocateAll policy (depth + 1) children

/-- The keys to open below nodes above the start depth. -/
def allocateAll
    (policy : ExpansionPolicy)
    (depth : Nat) :
    List Node → List String
  | [] => []
  | node :: rest =>
      allocate policy depth node ++ allocateAll policy depth rest

end

/-- The keys to open in nodes that stand at depth zero. -/
def expand (policy : ExpansionPolicy) (nodes : List Node) : List String :=
  if policy.budget = 0 then
    []
  else if policy.startDepth = 0 then
    (policy.markAll 0 policy.budget nodes).1
  else
    policy.allocateAll 0 nodes

end ExpansionPolicy

end BackupHistory
