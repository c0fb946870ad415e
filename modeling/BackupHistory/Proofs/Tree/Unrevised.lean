import BackupHistory.Proofs.Tree.Plain
import BackupHistory.Tree.Outline

namespace BackupHistory

/-!
# Trees without revisions

The revision of a flow is carried into the tree but never shown: flows that
differ in nothing else give trees that differ in nothing else, and these are
drawn alike.
-/

/-- What a node stands for, the revision of a flow dropped. -/
def Node.Content.unrevised : Node.Content → Node.Content
  | .leaf title flow => .leaf title (flow.atRevision 0)
  | content => content

namespace Node

mutual

/-- A node, the revisions of its flows dropped. -/
def unrevised : Node → Node
  | ⟨key, content, children⟩ =>
      ⟨key, content.unrevised, unrevisedAll children⟩

/-- Nodes, the revisions of their flows dropped. -/
def unrevisedAll : List Node → List Node
  | [] => []
  | node :: rest => unrevised node :: unrevisedAll rest

end

@[simp] theorem key_unrevised (node : Node) :
    node.unrevised.key = node.key := by
  cases node
  rfl

@[simp] theorem content_unrevised (node : Node) :
    node.unrevised.content = node.content.unrevised := by
  cases node
  rfl

theorem unrevisedAll_eq_map (nodes : List Node) :
    unrevisedAll nodes = nodes.map unrevised := by
  induction nodes with
  | nil => rfl
  | cons node rest inductionHypothesis =>
      rw [unrevisedAll, inductionHypothesis, List.map_cons]

@[simp] theorem instanceId?_unrevised (node : Node) :
    node.unrevised.instanceId? = node.instanceId? := by
  unfold instanceId?
  rw [content_unrevised]
  cases node.content <;> rfl

mutual

theorem pathKeys_unrevised (wanted : List String) (node : Node) :
    pathKeys wanted node.unrevised = pathKeys wanted node := by
  obtain ⟨key, content, children⟩ := node
  simp only [unrevised, pathKeys]
  rw [pathKeysOfAll_unrevisedAll wanted children]

theorem pathKeysOfAll_unrevisedAll
    (wanted : List String)
    (nodes : List Node) :
    pathKeysOfAll wanted (unrevisedAll nodes) =
      pathKeysOfAll wanted nodes := by
  cases nodes with
  | nil => rfl
  | cons node rest =>
      simp only [unrevisedAll, pathKeysOfAll]
      rw [pathKeys_unrevised wanted node,
        pathKeysOfAll_unrevisedAll wanted rest]

end

mutual

theorem draw_unrevised
    (isOpen : String → Bool)
    (place : Place)
    (node : Node) :
    draw isOpen place node.unrevised = draw isOpen place node := by
  obtain ⟨key, content, children⟩ := node
  have length : (unrevisedAll children).length = children.length := by
    rw [unrevisedAll_eq_map, List.length_map]
  have line :
      title ⟨key, content.unrevised, unrevisedAll children⟩ ++
          remark (isOpen key)
            ⟨key, content.unrevised, unrevisedAll children⟩ =
        title ⟨key, content, children⟩ ++
          remark (isOpen key) ⟨key, content, children⟩ := by
    cases content <;>
      simp [title, remark, flow?, Content.unrevised, Flow.atRevision,
        length]
  simp only [unrevised, draw, String.append_assoc, line]
  rw [drawAll_unrevisedAll isOpen place.margin children]

theorem drawAll_unrevisedAll
    (isOpen : String → Bool)
    (margin : String)
    (nodes : List Node) :
    drawAll isOpen margin (unrevisedAll nodes) =
      drawAll isOpen margin nodes := by
  match nodes with
  | [] => rfl
  | [last] =>
      simp only [unrevisedAll, drawAll]
      exact draw_unrevised isOpen (.below margin true) last
  | node :: next :: rest =>
      have later := drawAll_unrevisedAll isOpen margin (next :: rest)
      simp only [unrevisedAll] at later
      simp only [unrevisedAll, drawAll]
      rw [draw_unrevised isOpen (.below margin false) node, later]

end

end Node

namespace ExpansionPolicy

open Node (unrevisedAll)

mutual

theorem mark_unrevised
    (policy : ExpansionPolicy)
    (depth budget : Nat)
    (node : Node) :
    policy.mark depth budget node.unrevised =
      policy.mark depth budget node := by
  obtain ⟨key, content, children⟩ := node
  simp only [Node.unrevised, mark]
  rw [markAll_unrevisedAll policy (depth + 1) budget children]

theorem markAll_unrevisedAll
    (policy : ExpansionPolicy)
    (depth budget : Nat)
    (nodes : List Node) :
    policy.markAll depth budget (unrevisedAll nodes) =
      policy.markAll depth budget nodes := by
  cases nodes with
  | nil => rfl
  | cons node rest =>
      have first := mark_unrevised policy depth budget node
      have later (left : Nat) :=
        markAll_unrevisedAll policy depth left rest
      simp only [unrevisedAll, markAll, first, later]

end

mutual

theorem allocate_unrevised
    (policy : ExpansionPolicy)
    (depth : Nat)
    (node : Node) :
    policy.allocate depth node.unrevised = policy.allocate depth node := by
  obtain ⟨key, content, children⟩ := node
  simp only [Node.unrevised, allocate, markAll_unrevisedAll]
  rw [allocateAll_unrevisedAll policy (depth + 1) children]

theorem allocateAll_unrevisedAll
    (policy : ExpansionPolicy)
    (depth : Nat)
    (nodes : List Node) :
    policy.allocateAll depth (unrevisedAll nodes) =
      policy.allocateAll depth nodes := by
  cases nodes with
  | nil => rfl
  | cons node rest =>
      simp only [unrevisedAll, allocateAll]
      rw [allocate_unrevised policy depth node,
        allocateAll_unrevisedAll policy depth rest]

end

theorem expand_unrevisedAll
    (policy : ExpansionPolicy)
    (nodes : List Node) :
    policy.expand (unrevisedAll nodes) = policy.expand nodes := by
  unfold expand
  rw [markAll_unrevisedAll, allocateAll_unrevisedAll]

end ExpansionPolicy

namespace Tree

/-- A tree, the revisions of its flows dropped. -/
def unrevised (tree : Tree) : Tree :=
  { tree with roots := Node.unrevisedAll tree.roots }

/-- The drawing of a tree does not show revisions. -/
theorem draw_unrevised (showAll : Bool) (tree : Tree) :
    tree.unrevised.draw showAll = tree.draw showAll := by
  have openKeys : tree.unrevised.openKeys = tree.openKeys := by
    unfold Tree.openKeys
    exact congrArg (fun keys => Table.ofList (keys.map fun key => (key, ())))
      (Node.pathKeysOfAll_unrevisedAll tree.expanded tree.roots)
  unfold draw
  simp only [openKeys]
  change (Node.unrevisedAll tree.roots).flatMap _ = _
  rw [Node.unrevisedAll_eq_map, List.flatMap_map]
  simp only [Node.draw_unrevised]

end Tree

namespace Arrangement

open Node (unrevised unrevisedAll unrevisedAll_eq_map)

/-- Groups by what a change of flows leaves are the changed groups. -/
theorem groupBy_map
    (key : Flow → String)
    (change : Flow → Flow)
    (kept : ∀ flow, key (change flow) = key flow)
    (flows : List Flow) :
    groupBy key (flows.map change) =
      (groupBy key flows).map fun (name, members) =>
        (name, members.map change) := by
  refine Table.eq_of_ordered Prod.fst (groupBy_ordered key _) ?_ ?_
  · rw [List.pairwise_map]
    exact groupBy_ordered key flows
  · rintro ⟨name, members⟩
    have filtered :
        (flows.map change).filter (fun flow => key flow = name) =
          (flows.filter fun flow => key flow = name).map change := by
      rw [List.filter_map]
      simp only [Function.comp_def, kept]
    rw [mem_groupBy_iff, filtered, List.mem_map]
    constructor
    · rintro ⟨rfl, inhabited⟩
      refine ⟨(name, flows.filter fun flow => key flow = name), ?_, rfl⟩
      rw [mem_groupBy_iff]
      refine ⟨rfl, ?_⟩
      simpa using inhabited
    · rintro ⟨⟨_, group⟩, member, ⟨⟩⟩
      obtain ⟨rfl, inhabited⟩ := (mem_groupBy_iff ..).1 member
      exact ⟨rfl, by simpa using inhabited⟩

theorem byKeyDescending_unrevised (nodes : List Node) :
    byKeyDescending (nodes.map unrevised) =
      (byKeyDescending nodes).map unrevised := by
  unfold byKeyDescending
  refine (List.map_mergeSort fun left _ right _ => ?_).symm
  simp

theorem latestFirst_unrevised (flows : List Flow) :
    latestFirst (flows.map (Flow.atRevision 0)) =
      (latestFirst flows).map (Flow.atRevision 0) := by
  unfold latestFirst
  refine (List.map_mergeSort fun left _ right _ => ?_).symm
  rfl

namespace Plain

/-- Nodes of groups drop revisions if the node of each group does. -/
theorem groups_unrevised
    (key : Flow → String)
    (kept : ∀ flow, key (flow.atRevision 0) = key flow)
    {node : String → List Flow → Node}
    (each :
      ∀ name members,
        node name (members.map (Flow.atRevision 0)) =
          (node name members).unrevised)
    (flows : List Flow) :
    (byKeyDescending <|
        (groupBy key (flows.map (Flow.atRevision 0))).map
          fun (name, members) => node name members) =
      (byKeyDescending <|
        (groupBy key flows).map
          fun (name, members) => node name members).map unrevised := by
  rw [groupBy_map key (Flow.atRevision 0) kept,
    ← byKeyDescending_unrevised, List.map_map, List.map_map]
  simp only [Function.comp_def, each]

variable (offset : Int)

theorem dayNode_unrevised
    (keyStart day : String)
    (flows : List Flow) :
    dayNode offset keyStart day (flows.map (Flow.atRevision 0)) =
      (dayNode offset keyStart day flows).unrevised := by
  have title :
      dayTitle offset day (flows.map (Flow.atRevision 0)) =
        dayTitle offset day flows := by
    cases flows <;> rfl
  have children :
      leaves offset (flows.map (Flow.atRevision 0)) =
        unrevisedAll (leaves offset flows) := by
    unfold leaves
    rw [latestFirst_unrevised, unrevisedAll_eq_map, List.map_map,
      List.map_map]
    rfl
  unfold dayNode
  rw [title, children]
  rfl

theorem dayNodes_unrevised (keyStart : String) (flows : List Flow) :
    dayNodes offset keyStart (flows.map (Flow.atRevision 0)) =
      (dayNodes offset keyStart flows).map unrevised :=
  groups_unrevised _ (fun _ => rfl)
    (fun day members => dayNode_unrevised offset keyStart day members)
    flows

theorem planNode_unrevised
    (instanceId planId : String)
    (flows : List Flow) :
    planNode offset instanceId planId (flows.map (Flow.atRevision 0)) =
      (planNode offset instanceId planId flows).unrevised := by
  unfold planNode
  rw [dayNodes_unrevised, ← unrevisedAll_eq_map]
  rfl

theorem planNodes_unrevised (instanceId : String) (flows : List Flow) :
    planNodes offset instanceId (flows.map (Flow.atRevision 0)) =
      (planNodes offset instanceId flows).map unrevised :=
  groups_unrevised _ (fun _ => rfl)
    (fun planId members =>
      planNode_unrevised offset instanceId planId members)
    flows

theorem instanceNode_unrevised
    (instanceId : String)
    (flows : List Flow) :
    instanceNode offset instanceId (flows.map (Flow.atRevision 0)) =
      (instanceNode offset instanceId flows).unrevised := by
  unfold instanceNode
  rw [planNodes_unrevised, ← unrevisedAll_eq_map]
  rfl

theorem instanceNodes_unrevised (flows : List Flow) :
    instanceNodes offset (flows.map (Flow.atRevision 0)) =
      (instanceNodes offset flows).map unrevised :=
  groups_unrevised _ (fun _ => rfl)
    (fun instanceId members =>
      instanceNode_unrevised offset instanceId members)
    flows

theorem roots_unrevised (arrangement : Arrangement) (flows : List Flow) :
    roots arrangement (flows.map (Flow.atRevision 0)) =
      unrevisedAll (roots arrangement flows) := by
  rw [unrevisedAll_eq_map]
  unfold roots
  cases arrangement.scope with
  | plan => exact dayNodes_unrevised arrangement.offset "" flows
  | repository => exact instanceNodes_unrevised arrangement.offset flows

/-- The tree of flows without revisions is the tree without them. -/
theorem tree_unrevised (arrangement : Arrangement) (flows : List Flow) :
    tree arrangement (flows.map (Flow.atRevision 0)) =
      (tree arrangement flows).unrevised := by
  have expanded (nodes : List Node) :
      arrangement.expandedKeys (unrevisedAll nodes) =
        arrangement.expandedKeys nodes := by
    have found (instanceId : String) :
        (unrevisedAll nodes).find?
            (fun root => root.instanceId? == some instanceId) =
          (nodes.find? fun root =>
            root.instanceId? == some instanceId).map unrevised := by
      rw [unrevisedAll_eq_map, List.find?_map]
      simp only [Function.comp_def, Node.instanceId?_unrevised]
    unfold expandedKeys
    cases arrangement.options.expandInstance with
    | none => exact ExpansionPolicy.expand_unrevisedAll _ nodes
    | some instanceId =>
        cases arrangement.scope with
        | plan => exact ExpansionPolicy.expand_unrevisedAll _ nodes
        | repository =>
            simp only [found]
            cases nodes.find? fun root =>
                root.instanceId? == some instanceId with
            | none => rfl
            | some root =>
                exact ExpansionPolicy.expand_unrevisedAll _ [root]
  unfold tree Tree.unrevised
  rw [roots_unrevised, expanded]

end Plain

/-- Distinct flows that differ in revisions alone are drawn alike. -/
theorem draw_build_eq_of_unrevised
    (arrangement : Arrangement)
    (showAll : Bool)
    {left right : List Flow}
    (leftDistinct : Flow.Distinct left)
    (rightDistinct : Flow.Distinct right)
    (same :
      left.map (Flow.atRevision 0) = right.map (Flow.atRevision 0)) :
    (arrangement.build left).draw showAll =
      (arrangement.build right).draw showAll := by
  rw [build_eq_tree arrangement leftDistinct,
    build_eq_tree arrangement rightDistinct,
    ← Tree.draw_unrevised showAll (Plain.tree arrangement left),
    ← Plain.tree_unrevised, same, Plain.tree_unrevised,
    Tree.draw_unrevised]

end Arrangement

end BackupHistory
