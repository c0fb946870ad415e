import BackupHistory.Proofs.Tree.Levels

namespace BackupHistory.Node

/-!
# Where nodes stand

A tree is written down as the list of its nodes, depth first, each with the
nodes above it. Unlike a walk that carries a depth or a margin along, the list
says of every node by itself how deep it stands and below whom.
-/

/-- A node as one of a list of siblings. -/
structure Sibling where
  node : Node
  isLast : Bool
  deriving Repr

/-- A node with the nodes above it. -/
structure Spot extends Sibling where
  /-- The nodes above, from the top. -/
  above : List Sibling
  deriving Repr

/-- The count of nodes above. -/
def Spot.depth (spot : Spot) : Nat :=
  spot.above.length

/-- The spot of a node that has none above it. -/
def Spot.top (sibling : Sibling) : Spot :=
  { sibling with above := [] }

@[simp] theorem Spot.toSibling_top (sibling : Sibling) :
    (Spot.top sibling).toSibling = sibling :=
  rfl

@[simp] theorem Spot.above_top (sibling : Sibling) :
    (Spot.top sibling).above = [] :=
  rfl

/-- The spot of the same node in a tree that has one more node on top. -/
def Spot.under (top : Sibling) (spot : Spot) : Spot :=
  { spot with above := top :: spot.above }

@[simp] theorem Spot.toSibling_under (top : Sibling) (spot : Spot) :
    (spot.under top).toSibling = spot.toSibling :=
  rfl

@[simp] theorem Spot.above_under (top : Sibling) (spot : Spot) :
    (spot.under top).above = top :: spot.above :=
  rfl

mutual

/-- The spots of a node and of the nodes below it, depth first. -/
def spots (isLast : Bool) : Node → List Spot
  | ⟨key, content, children⟩ =>
      Spot.top ⟨⟨key, content, children⟩, isLast⟩ ::
        (spotsOfAll children).map
          (Spot.under ⟨⟨key, content, children⟩, isLast⟩)

/-- The spots of siblings and of the nodes below them, depth first. -/
def spotsOfAll : List Node → List Spot
  | [] => []
  | node :: rest => spots rest.isEmpty node ++ spotsOfAll rest

end

theorem spots_eq_cons (isLast : Bool) (node : Node) :
    node.spots isLast =
      Spot.top ⟨node, isLast⟩ ::
        (spotsOfAll node.children).map (Spot.under ⟨node, isLast⟩) := by
  obtain ⟨key, content, children⟩ := node
  rw [spots]

/-- The nodes of the spots at a depth. -/
def nodesOfDepth (depth : Nat) (spots : List Spot) : List Node :=
  (spots.filter fun spot => spot.depth = depth).map fun spot => spot.node

theorem nodesOfDepth_append (depth : Nat) (first second : List Spot) :
    nodesOfDepth depth (first ++ second) =
      nodesOfDepth depth first ++ nodesOfDepth depth second := by
  simp only [nodesOfDepth, List.filter_append, List.map_append]

/-- No node below another one stands at the top. -/
theorem nodesOfDepth_zero_under (top : Sibling) (spots : List Spot) :
    nodesOfDepth 0 (spots.map (Spot.under top)) = [] := by
  have deeper (spot : Spot) : (spot.under top).depth ≠ 0 :=
    Nat.succ_ne_zero spot.depth
  simp [nodesOfDepth, List.filter_map, Function.comp_def, deeper]

/-- Below another node all nodes stand one deeper. -/
theorem nodesOfDepth_succ_under
    (depth : Nat)
    (top : Sibling)
    (spots : List Spot) :
    nodesOfDepth (depth + 1) (spots.map (Spot.under top)) =
      nodesOfDepth depth spots := by
  have deeper (spot : Spot) : (spot.under top).depth = spot.depth + 1 :=
    rfl
  simp only [nodesOfDepth, List.filter_map, List.map_map,
    Function.comp_def, deeper, Nat.add_right_cancel_iff]
  rfl

mutual

theorem nodesOfDepth_spots (depth : Nat) (isLast : Bool) (node : Node) :
    nodesOfDepth depth (node.spots isLast) = atDepth depth [node] := by
  obtain ⟨key, content, children⟩ := node
  rw [spots, ← List.singleton_append, nodesOfDepth_append]
  cases depth with
  | zero =>
      rw [nodesOfDepth_zero_under, atDepth_zero]
      rfl
  | succ depth =>
      rw [nodesOfDepth_succ_under, nodesOfDepth_spotsOfAll depth children,
        atDepth_succ, List.flatMap_singleton]
      rfl

/-- The nodes at a depth are those that have as many nodes above them. -/
theorem nodesOfDepth_spotsOfAll (depth : Nat) (nodes : List Node) :
    nodesOfDepth depth (spotsOfAll nodes) = atDepth depth nodes := by
  cases nodes with
  | nil => exact (atDepth_nil depth).symm
  | cons node rest =>
      rw [spotsOfAll, nodesOfDepth_append, atDepth_cons,
        nodesOfDepth_spots depth rest.isEmpty node,
        nodesOfDepth_spotsOfAll depth rest]

end

end BackupHistory.Node
