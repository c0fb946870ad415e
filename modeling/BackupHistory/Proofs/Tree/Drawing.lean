import BackupHistory.Proofs.Tree.Nodes
import BackupHistory.Proofs.Tree.Spots
import BackupHistory.Tree.Outline

namespace BackupHistory

/-!
# What a drawing shows

A drawing carries a margin from a node to its children and goes on only below
open nodes. Seen from the spots of a tree, each line can be written from its own
spot, and a spot has a line if all nodes above it are open. The nodes above an
expanded one are, so an expanded node is always drawn.
-/

namespace Node

section Spots

mutual

theorem map_node_spots (isLast : Bool) (node : Node) :
    (node.spots isLast).map (fun spot => spot.node) = node.nodes := by
  obtain ⟨key, content, children⟩ := node
  have below := map_node_spotsOfAll children
  simp only [spots, nodes, List.map_cons, List.map_map]
  exact congrArg _ below

/-- There is one spot for each node. -/
theorem map_node_spotsOfAll (nodes : List Node) :
    (spotsOfAll nodes).map (fun spot => spot.node) = nodesOfAll nodes := by
  cases nodes with
  | nil => rfl
  | cons node rest =>
      rw [spotsOfAll, nodesOfAll, List.map_append,
        map_node_spots rest.isEmpty node, map_node_spotsOfAll rest]

end

mutual

theorem mem_nodes_of_mem_spots (isLast : Bool) (node : Node) {spot : Spot}
    (member : spot ∈ node.spots isLast) :
    ∀ sibling ∈ spot.above,
      sibling.node ∈ node.nodes ∧ spot.node ∈ sibling.node.nodes := by
  obtain ⟨key, content, children⟩ := node
  rw [spots, List.mem_cons, List.mem_map] at member
  rcases member with rfl | ⟨below, isBelow, rfl⟩
  · intro sibling isAbove
    cases isAbove
  · have inside : below.node ∈ nodesOfAll children := by
      rw [← map_node_spotsOfAll]
      exact List.mem_map_of_mem isBelow
    intro sibling isAbove
    rw [nodes]
    rcases List.mem_cons.1 isAbove with rfl | further
    · refine ⟨List.mem_cons_self, ?_⟩
      rw [nodes]
      exact List.mem_cons_of_mem _ inside
    · obtain ⟨isNode, under⟩ :=
        mem_nodes_of_mem_spotsOfAll children isBelow sibling further
      exact ⟨List.mem_cons_of_mem _ isNode, under⟩

/-- What stands above a spot is a node that has the spot's node below it. -/
theorem mem_nodes_of_mem_spotsOfAll (nodes : List Node) {spot : Spot}
    (member : spot ∈ spotsOfAll nodes) :
    ∀ sibling ∈ spot.above,
      sibling.node ∈ nodesOfAll nodes ∧ spot.node ∈ sibling.node.nodes := by
  cases nodes with
  | nil => cases member
  | cons node rest =>
      rw [spotsOfAll, List.mem_append] at member
      intro sibling isAbove
      rw [nodesOfAll, List.mem_append]
      rcases member with inFirst | inRest
      · obtain ⟨isNode, under⟩ :=
          mem_nodes_of_mem_spots rest.isEmpty node inFirst sibling isAbove
        exact ⟨.inl isNode, under⟩
      · obtain ⟨isNode, under⟩ :=
          mem_nodes_of_mem_spotsOfAll rest inRest sibling isAbove
        exact ⟨.inr isNode, under⟩

end

end Spots

/-- What the lines below a node leave for it. -/
def Sibling.rail (sibling : Sibling) : String :=
  if sibling.isLast then "    " else "│   "

/-- What leads from the list of siblings to a node. -/
def Sibling.fork (sibling : Sibling) : String :=
  if sibling.isLast then "└── " else "├── "

namespace Spot

/-- Whether all nodes above a spot are open. -/
def IsSeen (isOpen : String → Bool) (spot : Spot) : Prop :=
  ∀ sibling ∈ spot.above, isOpen sibling.node.key = true

instance (isOpen : String → Bool) (spot : Spot) :
    Decidable (spot.IsSeen isOpen) :=
  inferInstanceAs (Decidable (∀ sibling ∈ spot.above, _))

/-- What stands before the title, nothing for a root. -/
def lead (spot : Spot) : String :=
  match spot.above with
  | [] => ""
  | _ :: between => String.join (between.map Sibling.rail) ++ spot.fork

/--
What stands after the title: the status of a flow that did not succeed, the
count of the children of a group that is not open.
-/
def note (isOpen : String → Bool) (spot : Spot) : String :=
  match spot.node.content with
  | .leaf _ flow =>
      if flow.status = .success then
        ""
      else
        " <" ++ flow.status.words ++ ">"
  | _ =>
      if isOpen spot.node.key then
        ""
      else
        " (+" ++ toString spot.node.children.length ++ ")"

/-- The line of a spot. -/
def line (isOpen : String → Bool) (spot : Spot) : String :=
  spot.lead ++ spot.node.title ++ spot.note isOpen

/-- The line of a spot whose tree stands below others, in their margin. -/
def lineBelow
    (isOpen : String → Bool)
    (margin : String)
    (spot : Spot) :
    String :=
  margin ++ String.join (spot.above.map Sibling.rail) ++ spot.fork ++
    spot.node.title ++ spot.note isOpen

variable {isOpen : String → Bool}

theorem note_eq_remark (spot : Spot) :
    spot.note isOpen = spot.node.remark (isOpen spot.node.key) := by
  unfold note remark flow?
  cases spot.node.content <;> rfl

@[simp] theorem note_under (top : Sibling) (spot : Spot) :
    (spot.under top).note isOpen = spot.note isOpen :=
  rfl

theorem lineBelow_under (margin : String) (top : Sibling) (spot : Spot) :
    (spot.under top).lineBelow isOpen margin =
      spot.lineBelow isOpen (margin ++ top.rail) := by
  simp only [lineBelow, above_under, toSibling_under, note_under,
    List.map_cons, String.join_cons, String.append_assoc]

theorem line_under (top : Sibling) (spot : Spot) :
    (spot.under top).line isOpen = spot.lineBelow isOpen "" := by
  simp only [line, lineBelow, lead, above_under, toSibling_under,
    note_under, String.empty_append]

end Spot

section Lines

variable (isOpen : String → Bool)

/-- The spots that are seen. -/
def seen (spots : List Spot) : List Spot :=
  spots.filter fun spot => spot.IsSeen isOpen

theorem seen_append (first second : List Spot) :
    seen isOpen (first ++ second) = seen isOpen first ++ seen isOpen second :=
  List.filter_append first second

/-- Below an open node the same spots are seen, below a closed one none. -/
theorem seen_spots (isLast : Bool) (node : Node) :
    seen isOpen (node.spots isLast) =
      Spot.top ⟨node, isLast⟩ ::
        if isOpen node.key then
          (seen isOpen (spotsOfAll node.children)).map
            (Spot.under ⟨node, isLast⟩)
        else
          [] := by
  have under (spot : Spot) :
      (spot.under ⟨node, isLast⟩).IsSeen isOpen ↔
        isOpen node.key = true ∧ spot.IsSeen isOpen :=
    List.forall_mem_cons
  have atTop : (Spot.top ⟨node, isLast⟩).IsSeen isOpen := by
    intro sibling isAbove
    cases isAbove
  simp only [seen, spots_eq_cons, List.filter_cons, atTop, decide_true,
    ↓reduceIte, List.filter_map, Function.comp_def, under]
  split
  next opened => simp [opened]
  next closed => simp [closed]

theorem Place.margin_below (margin : String) (sibling : Sibling) :
    (Place.below margin sibling.isLast).margin = margin ++ sibling.rail := by
  unfold Place.margin Sibling.rail
  cases sibling.isLast <;> rfl

theorem Place.branch_below (margin : String) (sibling : Sibling) :
    (Place.below margin sibling.isLast).branch = margin ++ sibling.fork := by
  unfold Place.branch Sibling.fork
  cases sibling.isLast <;> rfl

/-- A node is drawn by its own line and, if it is open, by those below. -/
theorem draw_eq_cons (place : Place) (node : Node) :
    draw isOpen place node =
      (place.branch ++ node.title ++ node.remark (isOpen node.key)) ::
        if isOpen node.key then
          drawAll isOpen place.margin node.children
        else
          [] := by
  obtain ⟨key, content, children⟩ := node
  simp only [draw]
  split <;> rfl

mutual

theorem draw_eq_map_lineBelow
    (margin : String)
    (isLast : Bool)
    (node : Node) :
    draw isOpen (.below margin isLast) node =
      (seen isOpen (node.spots isLast)).map
        (Spot.lineBelow isOpen margin) := by
  obtain ⟨key, content, children⟩ := node
  have below (margin : String) := drawAll_eq_map_lineBelow margin children
  have marginBelow :=
    Place.margin_below margin ⟨⟨key, content, children⟩, isLast⟩
  have branchBelow :=
    Place.branch_below margin ⟨⟨key, content, children⟩, isLast⟩
  have own :
      (Spot.top ⟨⟨key, content, children⟩, isLast⟩).lineBelow isOpen
          margin =
        margin ++ Sibling.fork ⟨⟨key, content, children⟩, isLast⟩ ++
            title ⟨key, content, children⟩ ++
          remark (isOpen key) ⟨key, content, children⟩ := by
    simp only [Spot.lineBelow, Spot.note_eq_remark, Spot.toSibling_top,
      Spot.above_top, List.map_nil, String.join_nil, String.append_empty]
  rw [draw_eq_cons, seen_spots, List.map_cons, below, marginBelow,
    branchBelow, own]
  refine congrArg _ ?_
  -- Where the node is open, the margin of its children is the margin of the
  -- node with the rail that each spot below has for the node.
  split
  next =>
    simp only [List.map_map, Function.comp_def, Spot.lineBelow_under]
  next => rfl

theorem drawAll_eq_map_lineBelow (margin : String) (nodes : List Node) :
    drawAll isOpen margin nodes =
      (seen isOpen (spotsOfAll nodes)).map
        (Spot.lineBelow isOpen margin) := by
  match nodes with
  | [] => rfl
  | [last] =>
      rw [drawAll, draw_eq_map_lineBelow margin true last, spotsOfAll,
        spotsOfAll, List.append_nil]
      rfl
  | node :: next :: rest =>
      rw [drawAll, draw_eq_map_lineBelow margin false node,
        drawAll_eq_map_lineBelow margin (next :: rest), ← List.map_append,
        ← seen_append]
      rfl

end

/-- A root is drawn without a margin, and so is what stands below it. -/
theorem draw_root_eq_map_line (isLast : Bool) (node : Node) :
    draw isOpen .root node =
      (seen isOpen (node.spots isLast)).map (Spot.line isOpen) := by
  have own :
      (Spot.top ⟨node, isLast⟩).line isOpen =
        "" ++ node.title ++ node.remark (isOpen node.key) := by
    simp only [Spot.line, Spot.lead, Spot.note_eq_remark,
      Spot.toSibling_top, Spot.above_top]
  rw [draw_eq_cons, seen_spots, List.map_cons, drawAll_eq_map_lineBelow,
    own]
  refine congrArg _ ?_
  split
  next =>
    simp only [List.map_map, Function.comp_def, Spot.line_under]
    rfl
  next => rfl

/-- Roots are drawn by the lines of all spots that are seen. -/
theorem flatMap_draw_root_eq_map_line (nodes : List Node) :
    nodes.flatMap (draw isOpen .root) =
      (seen isOpen (spotsOfAll nodes)).map (Spot.line isOpen) := by
  induction nodes with
  | nil => rfl
  | cons node rest inductionHypothesis =>
      rw [List.flatMap_cons, inductionHypothesis,
        draw_root_eq_map_line isOpen rest.isEmpty node, spotsOfAll,
        seen_append, List.map_append]

end Lines

end Node

namespace Tree

variable {tree : Tree}

/-- Whether what stands below the nodes with a key is drawn. -/
def isOpen (showAll : Bool) (tree : Tree) (key : String) : Bool :=
  showAll || tree.openKeys.contains key

theorem isOpen_of_mem_openKeys {key : String}
    (member : key ∈ tree.openKeys.keys)
    (showAll : Bool) :
    tree.isOpen showAll key = true := by
  rw [Table.mem_keys_iff] at member
  simp only [isOpen, Table.contains, member, Bool.or_true]

/-- All nodes above an expanded one are open. -/
theorem isSeen_of_expanded {spot : Node.Spot}
    (member : spot ∈ Node.spotsOfAll tree.roots)
    (expanded : spot.node.key ∈ tree.expanded)
    (showAll : Bool) :
    spot.IsSeen (tree.isOpen showAll) := by
  intro sibling isAbove
  obtain ⟨isNode, under⟩ :=
    Node.mem_nodes_of_mem_spotsOfAll tree.roots member sibling isAbove
  have onWay : sibling.node.IsOnWay tree.expanded :=
    ⟨spot.node, under, expanded⟩
  exact isOpen_of_mem_openKeys
    (mem_openKeys_iff.2 ⟨sibling.node, isNode, rfl, onWay⟩) showAll

/-- What can be said of the open keys of a tree and of its drawings. -/
structure ShowsOpenPart (tree : Tree) : Prop where
  /-- Open are the keys of the nodes that are expanded or have an expanded node
  below them. -/
  opened :
    ∀ key,
      key ∈ tree.openKeys.keys ↔
        ∃ node ∈ Node.nodesOfAll tree.roots,
          node.key = key ∧
            ∃ other ∈ node.nodes, other.key ∈ tree.expanded
  /-- There is one spot for each node, depth first. -/
  listed :
    (Node.spotsOfAll tree.roots).map (fun spot => spot.node) =
      Node.nodesOfAll tree.roots
  /-- The lines are those of the spots that have only open nodes above. -/
  drawn :
    ∀ showAll,
      tree.draw showAll =
        ((Node.spotsOfAll tree.roots).filter fun spot =>
          spot.IsSeen (tree.isOpen showAll)).map
          (Node.Spot.line (tree.isOpen showAll))
  /-- What is expanded has a line. -/
  expandedSeen :
    ∀ showAll, ∀ spot ∈ Node.spotsOfAll tree.roots,
      spot.node.key ∈ tree.expanded →
        spot.IsSeen (tree.isOpen showAll)
  /-- If everything is to be shown, all spots have a line. -/
  allDrawn :
    tree.draw true =
      (Node.spotsOfAll tree.roots).map (Node.Spot.line fun _ => true)

/-- A drawing shows exactly the open part of a tree of any shape. -/
theorem showsOpenPart (tree : Tree) : tree.ShowsOpenPart where
  opened _ := mem_openKeys_iff
  listed := Node.map_node_spotsOfAll tree.roots
  drawn showAll :=
    Node.flatMap_draw_root_eq_map_line (tree.isOpen showAll) tree.roots
  expandedSeen showAll _ member expanded :=
    isSeen_of_expanded member expanded showAll
  allDrawn := by
    have everySeen :
        Node.seen (fun _ => true) (Node.spotsOfAll tree.roots) =
          Node.spotsOfAll tree.roots :=
      List.filter_eq_self.2 fun _ _ => decide_eq_true fun _ _ => rfl
    calc
      tree.draw true =
          (Node.seen (fun _ => true) (Node.spotsOfAll tree.roots)).map
            (Node.Spot.line fun _ => true) :=
        Node.flatMap_draw_root_eq_map_line (fun _ => true) tree.roots
      _ = (Node.spotsOfAll tree.roots).map
            (Node.Spot.line fun _ => true) := by
        rw [everySeen]

example :
    let group (key : String) (children : List Node) : Node :=
      ⟨key, .dayGroup key ⟨key, none⟩, children⟩
    let roots :=
      [group "a" [group "b" [group "c" []], group "d" [group "e" []]],
        group "f" [group "g" []]]
    Tree.draw false ⟨.plan, roots, ["c"]⟩ =
      ["a", "├── b", "│   └── c", "└── d (+1)", "f (+1)"] := by
  decide +kernel

end Tree

end BackupHistory
