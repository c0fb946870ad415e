import BackupHistory.Proofs.Tree.Spots
import BackupHistory.Tree.Expansion

namespace BackupHistory.ExpansionPolicy

/-!
# What a budget opens

A walk that spends a budget on the nodes at the target depth opens the first of
them, as many as the budget allows, and what is left of the budget is what they
did not need. So every list of siblings at the start depth opens its share of
the nodes in it and below it, whatever the other lists open.
-/

/-- The keys that a list of siblings at the start depth opens. -/
def share (policy : ExpansionPolicy) (siblings : List Node) : List String :=
  ((Node.atDepth (policy.targetDepth - policy.startDepth) siblings).map
    Node.key).take policy.budget

/-- The keys of the nodes to open in nodes at a depth. -/
def targets
    (policy : ExpansionPolicy)
    (depth : Nat)
    (nodes : List Node) :
    List String :=
  (Node.atDepth (policy.targetDepth - depth) nodes).map Node.key

/--
The nodes in and below a list of siblings at the start depth that stand at the
target depth, or at the start depth if that is deeper, depth first.
-/
def candidates (policy : ExpansionPolicy) (siblings : List Node) :
    List Node :=
  ((Node.spotsOfAll siblings).filter fun spot =>
    policy.startDepth + spot.depth =
      max policy.startDepth policy.targetDepth).map fun spot => spot.node

variable (policy : ExpansionPolicy)

theorem targets_cons (depth : Nat) (node : Node) (rest : List Node) :
    policy.targets depth (node :: rest) =
      policy.targets depth [node] ++ policy.targets depth rest := by
  unfold targets
  rw [Node.atDepth_cons, List.map_append]

/-- Above the target depth a node hands on what its children have to open. -/
theorem targets_children {depth : Nat} (above : depth < policy.targetDepth)
    (node : Node) :
    policy.targets depth [node] =
      policy.targets (depth + 1) node.children := by
  unfold targets
  rw [show policy.targetDepth - depth =
      policy.targetDepth - (depth + 1) + 1 by omega,
    Node.atDepth_succ, List.flatMap_singleton]

theorem targets_singleton {depth : Nat} (reached : policy.targetDepth ≤ depth)
    (node : Node) :
    policy.targets depth [node] = [node.key] := by
  unfold targets
  rw [Nat.sub_eq_zero_of_le reached, Node.atDepth_zero]
  rfl

mutual

theorem mark_eq_take
    (depth : Nat)
    {budget : Nat}
    (positive : 0 < budget)
    (node : Node) :
    policy.mark depth budget node =
      ((policy.targets depth [node]).take budget,
        budget - (policy.targets depth [node]).length) := by
  obtain ⟨key, content, children⟩ := node
  rw [mark]
  split
  next reached =>
    rw [targets_singleton policy reached, List.length_singleton,
      List.take_of_length_le positive]
  next above =>
    rw [targets_children policy (Nat.not_le.1 above)]
    exact markAll_eq_take (depth + 1) budget children

/-- A walk opens the first of what it has to open, within its budget. -/
theorem markAll_eq_take (depth budget : Nat) (nodes : List Node) :
    policy.markAll depth budget nodes =
      ((policy.targets depth nodes).take budget,
        budget - (policy.targets depth nodes).length) := by
  cases nodes with
  | nil => simp [markAll, targets]
  | cons node rest =>
      rw [markAll, targets_cons]
      split
      next spent => simp [spent]
      next unspent =>
        have first := mark_eq_take depth (Nat.pos_of_ne_zero unspent) node
        have later (left : Nat) := markAll_eq_take depth left rest
        simp only [first, later, List.take_append, List.length_append,
          Nat.sub_add_eq]

end

mutual

theorem allocate_eq_flatMap
    {depth : Nat}
    (above : depth < policy.startDepth)
    (node : Node) :
    policy.allocate depth node =
      (Node.siblingLists (policy.startDepth - depth) [node]).flatMap
        policy.share := by
  obtain ⟨key, content, children⟩ := node
  rw [show policy.startDepth - depth =
      policy.startDepth - (depth + 1) + 1 by omega,
    Node.siblingLists, List.flatMap_singleton, allocate]
  split
  next reached =>
    have isStart : policy.startDepth = depth + 1 := by omega
    rw [markAll_eq_take, isStart, Nat.sub_self, Node.siblingLists,
      List.flatMap_singleton, ← isStart]
    rfl
  next stillAbove =>
    exact allocateAll_eq_flatMap (Nat.not_le.1 stillAbove) children

theorem allocateAll_eq_flatMap
    {depth : Nat}
    (above : depth < policy.startDepth)
    (nodes : List Node) :
    policy.allocateAll depth nodes =
      (Node.siblingLists (policy.startDepth - depth) nodes).flatMap
        policy.share := by
  cases nodes with
  | nil =>
      rw [show policy.startDepth - depth =
        policy.startDepth - (depth + 1) + 1 by omega]
      rfl
  | cons node rest =>
      have first := allocate_eq_flatMap above node
      have later := allocateAll_eq_flatMap above rest
      rw [allocateAll, first, later,
        show policy.startDepth - depth =
          policy.startDepth - (depth + 1) + 1 by omega]
      simp only [Node.siblingLists, List.flatMap_cons, List.flatMap_nil,
        List.append_nil, List.flatMap_append]

end

/-- Each list of siblings at the start depth opens its share. -/
theorem expand_eq_flatMap_share (nodes : List Node) :
    policy.expand nodes =
      (Node.siblingLists policy.startDepth nodes).flatMap policy.share := by
  unfold expand
  split
  next nothing =>
    have noShare (siblings : List Node) : policy.share siblings = [] := by
      unfold share
      rw [nothing, List.take_zero]
    exact (List.flatMap_eq_nil_iff.2 fun siblings _ => noShare siblings).symm
  next =>
    split
    next atOnce =>
      rw [markAll_eq_take, atOnce, Node.siblingLists,
        List.flatMap_singleton]
      unfold share targets
      rw [atOnce]
    next above =>
      exact allocateAll_eq_flatMap policy (Nat.pos_of_ne_zero above) nodes

theorem candidates_eq_atDepth (siblings : List Node) :
    policy.candidates siblings =
      Node.atDepth (policy.targetDepth - policy.startDepth) siblings := by
  have asDeep (spot : Node.Spot) :
      policy.startDepth + spot.depth =
          max policy.startDepth policy.targetDepth ↔
        spot.depth = policy.targetDepth - policy.startDepth := by
    omega
  rw [← Node.nodesOfDepth_spotsOfAll]
  simp only [candidates, Node.nodesOfDepth, asDeep]

/-- What is opened and what is left of the budget make up the budget. -/
theorem length_markAll_add_left (depth budget : Nat) (nodes : List Node) :
    (policy.markAll depth budget nodes).1.length +
        (policy.markAll depth budget nodes).2 =
      budget := by
  rw [markAll_eq_take, List.length_take]
  omega

/--
Every list of siblings at the start depth has the budget for itself and opens
the first of its candidates, whatever the nodes and the depths are. A budget of
zero opens nothing. A walk never takes more from a budget than there is: what it
opens and what it leaves make up what it was given.
-/
theorem expand_eq_flatMap_candidates (nodes : List Node) :
    policy.expand nodes =
        (Node.siblingLists policy.startDepth nodes).flatMap (fun siblings =>
          ((policy.candidates siblings).take policy.budget).map Node.key) ∧
      { policy with budget := 0 }.expand nodes = [] ∧
      ∀ depth budget siblings,
        (policy.markAll depth budget siblings).1.length +
            (policy.markAll depth budget siblings).2 =
          budget := by
  refine ⟨?_, if_pos rfl, policy.length_markAll_add_left⟩
  rw [expand_eq_flatMap_share]
  refine List.flatMap_congr fun siblings _ => ?_
  unfold share
  rw [candidates_eq_atDepth, List.map_take]

end BackupHistory.ExpansionPolicy
