import BackupHistory.Proofs.Tree.Grouping
import BackupHistory.Proofs.Tree.Levels

namespace BackupHistory

/-!
# Every flow in its place

A flow has one place in a view: below the groups of its instance, its plan and
the day on which it ran by the viewer's clock, or below that day alone. A tree
consists of these places and nothing else. Groups of the same place are one
group, since siblings differ in their keys.
-/

namespace Node

/-- What is seen of a node by itself. -/
def face (node : Node) : String × Node.Content :=
  (node.key, node.content)

/-- What is seen on the way down a branch, and the node that it ends at. -/
def Branch.trail (branch : Branch) : List (String × Node.Content) × Node :=
  (branch.groups.map face, branch.last)

/-- Siblings that differ in their keys, leaves without and groups with
children. -/
structure ProperSiblings (siblings : List Node) : Prop where
  keys_nodup : (siblings.map key).Nodup
  isLeaf_iff : ∀ node ∈ siblings, node.isLeaf = true ↔ node.children = []

theorem everywhere_properSiblings_nil : Everywhere ProperSiblings [] := by
  rw [everywhere_iff]
  exact ⟨⟨.nil, nofun⟩, nofun⟩

end Node

/-- The branches of a tree, from left to right. -/
def Tree.branches (tree : Tree) : List Node.Branch :=
  Node.branchesOfAll tree.roots

namespace Arrangement

/-- The day that a flow stands under. -/
def dayFace (offset : Int) (keyStart : String) (flow : Flow) :
    String × Node.Content :=
  (keyStart ++ flow.time.dayText offset,
    .dayGroup (flow.time.dayText offset)
      ⟨flow.time.weekdayText offset, none⟩)

/-- The plan that a flow stands under. -/
def planFace (flow : Flow) : String × Node.Content :=
  (planKey flow.instanceId flow.planId,
    .planGroup flow.planId ⟨flow.planId, planHelp flow.planId⟩)

/-- The instance that a flow stands under. -/
def instanceFace (flow : Flow) : String × Node.Content :=
  ("i" ++ flow.instanceId,
    .instanceGroup flow.instanceId
      ⟨flow.instanceId, instanceHelp flow.instanceId⟩)

/-- The groups that a flow stands under, from the top. -/
def groupFaces (arrangement : Arrangement) (flow : Flow) :
    List (String × Node.Content) :=
  match arrangement.scope with
  | .plan => [dayFace arrangement.offset "" flow]
  | .repository =>
      [instanceFace flow, planFace flow,
        dayFace arrangement.offset
          (planKey flow.instanceId flow.planId) flow]

/-- Flows that a view shows in one group. -/
def Together (arrangement : Arrangement) (first second : Flow) : Prop :=
  (arrangement.scope = .repository →
    first.instanceId = second.instanceId ∧ first.planId = second.planId) ∧
  first.time.localDay arrangement.offset =
    second.time.localDay arrangement.offset

/-- A tree that has each flow just once and in its place. -/
structure Partitions
    (arrangement : Arrangement)
    (flows : List Flow)
    (tree : Tree) : Prop where
  /-- No flow is lost and none is there twice. -/
  flows_perm : tree.flows.Perm flows
  flowCount_eq : tree.flowCount = flows.length
  /-- The ways down are those that the flows ask for: the groups of a flow, one
  for each level, and then its leaf. -/
  branches_perm :
    (tree.branches.map Node.Branch.trail).Perm
      (flows.map fun flow =>
        (arrangement.groupFaces flow, leafNode arrangement.offset flow))
  /-- There is just one group for flows that belong together. -/
  groups_eq_iff :
    ∀ first ∈ tree.branches,
      ∀ second ∈ tree.branches,
        ∀ firstFlow secondFlow,
          first.last.flow? = some firstFlow →
          second.last.flow? = some secondFlow →
          (first.groups = second.groups ↔
            arrangement.Together firstFlow secondFlow)
  siblings : Node.Everywhere Node.ProperSiblings tree.roots

theorem groupFaces_eq_iff
    (arrangement : Arrangement)
    (first second : Flow) :
    arrangement.groupFaces first = arrangement.groupFaces second ↔
      arrangement.Together first second := by
  have sameDay {offset : Int}
      (same : first.time.dayText offset = second.time.dayText offset)
      (keyStart : String) :
      dayFace offset keyStart first = dayFace offset keyStart second := by
    unfold dayFace
    rw [same, Instant.weekdayText_eq same]
  unfold groupFaces Together
  rw [← Instant.dayText_eq_iff]
  cases arrangement.scope with
  | plan =>
      constructor
      · intro same
        simp only [dayFace, List.cons.injEq, Prod.mk.injEq,
          Node.Content.dayGroup.injEq] at same
        exact ⟨nofun, same.1.2.1⟩
      · rintro ⟨_, same⟩
        exact congrArg (fun face => [face]) (sameDay same "")
  | repository =>
      constructor
      · intro same
        simp only [instanceFace, planFace, dayFace, List.cons.injEq,
          Prod.mk.injEq, Node.Content.instanceGroup.injEq,
          Node.Content.planGroup.injEq,
          Node.Content.dayGroup.injEq] at same
        exact ⟨fun _ => ⟨same.1.2.1, same.2.1.2.1⟩, same.2.2.1.2.1⟩
      · rintro ⟨samePlace, same⟩
        obtain ⟨sameInstance, samePlan⟩ := samePlace rfl
        simp only [instanceFace, planFace, sameInstance, samePlan,
          sameDay same]

namespace Plain

section Inhabited

theorem leaves_ne_nil {offset : Int} {flows : List Flow}
    (inhabited : flows ≠ []) :
    leaves offset flows ≠ [] := by
  intro none
  have sorted : latestFirst flows = [] := List.map_eq_nil_iff.1 none
  exact inhabited (List.nil_perm.1 (sorted ▸ latestFirst_perm flows))

theorem groups_ne_nil
    {key : Flow → String}
    {flows : List Flow}
    {node : String → List Flow → Node}
    (inhabited : flows ≠ []) :
    (byKeyDescending <|
      (groupBy key flows).map
        fun (name, members) => node name members) ≠ [] := by
  intro none
  have unsorted := none ▸ byKeyDescending_perm
    ((groupBy key flows).map fun (name, members) => node name members)
  have noGroup := List.map_eq_nil_iff.1 (List.nil_perm.1 unsorted)
  obtain ⟨flow, member⟩ := List.exists_mem_of_ne_nil _ inhabited
  obtain ⟨members, group, _⟩ := exists_group_of_mem key member
  rw [noGroup] at group
  cases group

end Inhabited

section Trails

/-- A group puts its face before what is seen below it. -/
theorem trails_group
    {node : Node}
    {members : List Flow}
    {top : Flow → String × Node.Content}
    {below : Flow → List (String × Node.Content)}
    {leaf : Flow → Node}
    (inhabited : node.children ≠ [])
    (faces : ∀ flow ∈ members, node.face = top flow)
    (children :
      ((Node.branchesOfAll node.children).map Node.Branch.trail).Perm
        (members.map fun flow => (below flow, leaf flow))) :
    (node.branches.map Node.Branch.trail).Perm
      (members.map fun flow => (top flow :: below flow, leaf flow)) := by
  have underNode :
      (node.branches.map Node.Branch.trail) =
        ((Node.branchesOfAll node.children).map Node.Branch.trail).map
          fun trail => (node.face :: trail.1, trail.2) := by
    rw [Node.branches_of_children_ne_nil inhabited, List.map_map,
      List.map_map]
    rfl
  have underTop :
      (members.map fun flow => (top flow :: below flow, leaf flow)) =
        (members.map fun flow => (below flow, leaf flow)).map
          fun trail => (node.face :: trail.1, trail.2) := by
    rw [List.map_map]
    refine List.map_congr_left fun flow member => ?_
    rw [← faces flow member]
    rfl
  rw [underNode, underTop]
  exact children.map _

theorem trails_leaves (offset : Int) (flows : List Flow) :
    ((Node.branchesOfAll (leaves offset flows)).map
        Node.Branch.trail).Perm
      (flows.map fun flow => ([], leafNode offset flow)) := by
  have single :
      (Node.branchesOfAll (leaves offset flows)).map Node.Branch.trail =
        (latestFirst flows).map fun flow => ([], leafNode offset flow) := by
    unfold leaves
    rw [Node.branchesOfAll_eq_flatMap, List.flatMap_map, List.map_flatMap,
      List.map_eq_flatMap]
    rfl
  rw [single]
  exact (latestFirst_perm flows).map _

/-- What is seen below groups is what is seen below each of them. -/
theorem trails_groups
    {key : Flow → String}
    {flows : List Flow}
    {node : String → List Flow → Node}
    {ofFlow : Flow → List (String × Node.Content) × Node}
    (each :
      ∀ name members,
        (name, members) ∈ groupBy key flows →
        ((node name members).branches.map Node.Branch.trail).Perm
          (members.map ofFlow)) :
    ((Node.branchesOfAll <|
        byKeyDescending <|
          (groupBy key flows).map
            fun (name, members) => node name members).map
        Node.Branch.trail).Perm
      (flows.map ofFlow) := by
  rw [Node.branchesOfAll_eq_flatMap, List.map_flatMap]
  exact flatMap_groups_perm each

theorem trails_dayNodes
    (offset : Int)
    (keyStart : String)
    (flows : List Flow) :
    ((Node.branchesOfAll (dayNodes offset keyStart flows)).map
        Node.Branch.trail).Perm
      (flows.map fun flow =>
        ([dayFace offset keyStart flow], leafNode offset flow)) := by
  apply trails_groups
  intro day members group
  obtain ⟨sameDay, inhabited⟩ := of_mem_groupBy group
  refine trails_group (leaves_ne_nil inhabited) ?_
    (trails_leaves offset members)
  intro flow member
  unfold dayNode Node.face dayFace
  rw [sameDay flow member, dayTitle_of_mem sameDay member]

theorem trails_planNodes
    (offset : Int)
    {instanceId : String}
    {flows : List Flow}
    (sameInstance : ∀ flow ∈ flows, flow.instanceId = instanceId) :
    ((Node.branchesOfAll (planNodes offset instanceId flows)).map
        Node.Branch.trail).Perm
      (flows.map fun flow =>
        ([planFace flow,
          dayFace offset (planKey flow.instanceId flow.planId) flow],
          leafNode offset flow)) := by
  apply trails_groups
  intro planId members group
  obtain ⟨samePlan, inhabited⟩ := of_mem_groupBy group
  have key (flow : Flow) (member : flow ∈ members) :
      planKey instanceId planId =
        planKey flow.instanceId flow.planId := by
    rw [samePlan flow member,
      sameInstance flow (mem_of_mem_groupBy group member)]
  refine trails_group (groups_ne_nil inhabited) ?_ ?_
  · intro flow member
    unfold planNode Node.face planFace
    rw [key flow member, samePlan flow member]
  · refine (trails_dayNodes ..).trans (.of_eq ?_)
    refine List.map_congr_left fun flow member => ?_
    rw [key flow member]

theorem trails_instanceNodes (offset : Int) (flows : List Flow) :
    ((Node.branchesOfAll (instanceNodes offset flows)).map
        Node.Branch.trail).Perm
      (flows.map fun flow =>
        ([instanceFace flow, planFace flow,
          dayFace offset (planKey flow.instanceId flow.planId) flow],
          leafNode offset flow)) := by
  apply trails_groups
  intro instanceId members group
  obtain ⟨sameInstance, inhabited⟩ := of_mem_groupBy group
  refine trails_group (groups_ne_nil inhabited) ?_
    (trails_planNodes offset sameInstance)
  intro flow member
  unfold instanceNode Node.face instanceFace
  rw [sameInstance flow member]

/-- The branches of a tree lead to each flow through its groups. -/
theorem trails_tree (arrangement : Arrangement) (flows : List Flow) :
    ((tree arrangement flows).branches.map Node.Branch.trail).Perm
      (flows.map fun flow =>
        (arrangement.groupFaces flow,
          leafNode arrangement.offset flow)) := by
  unfold Tree.branches tree roots groupFaces
  cases arrangement.scope with
  | plan => exact trails_dayNodes arrangement.offset "" flows
  | repository => exact trails_instanceNodes arrangement.offset flows

end Trails

section Flows

theorem flows_dayNode (offset : Int) (keyStart day : String)
    (flows : List Flow) :
    (dayNode offset keyStart day flows).flows = latestFirst flows := by
  have children :
      (dayNode offset keyStart day flows).flows =
        Node.flowsOfAll (leaves offset flows) :=
    rfl
  have leaf (flow : Flow) : (leafNode offset flow).flows = [flow] :=
    rfl
  rw [children, Node.flowsOfAll_eq_flatMap, leaves, List.flatMap_map]
  simp only [leaf, List.flatMap_singleton']

/-- The flows below groups are the flows that are grouped. -/
theorem flows_groups
    {key : Flow → String}
    {flows : List Flow}
    {node : String → List Flow → Node}
    (each :
      ∀ name members, (node name members).flows.Perm members) :
    (Node.flowsOfAll <|
        byKeyDescending <|
          (groupBy key flows).map
            fun (name, members) => node name members).Perm
      flows := by
  rw [Node.flowsOfAll_eq_flatMap]
  refine .trans (flatMap_groups_perm fun name members _ => ?_)
    (.of_eq (List.map_id flows))
  rw [List.map_id]
  exact each name members

theorem flows_dayNodes (offset : Int) (keyStart : String)
    (flows : List Flow) :
    (Node.flowsOfAll (dayNodes offset keyStart flows)).Perm flows :=
  flows_groups fun day members =>
    (flows_dayNode offset keyStart day members) ▸ latestFirst_perm members

theorem flows_planNodes (offset : Int) (instanceId : String)
    (flows : List Flow) :
    (Node.flowsOfAll (planNodes offset instanceId flows)).Perm flows :=
  flows_groups fun planId members =>
    flows_dayNodes offset (planKey instanceId planId) members

theorem flows_instanceNodes (offset : Int) (flows : List Flow) :
    (Node.flowsOfAll (instanceNodes offset flows)).Perm flows :=
  flows_groups fun instanceId members =>
    flows_planNodes offset instanceId members

theorem flows_tree (arrangement : Arrangement) (flows : List Flow) :
    (tree arrangement flows).flows.Perm flows := by
  unfold Tree.flows tree roots
  cases arrangement.scope with
  | plan => exact flows_dayNodes arrangement.offset "" flows
  | repository => exact flows_instanceNodes arrangement.offset flows

end Flows

section Siblings

/-- Groups are proper siblings if they are so below each of them. -/
theorem properSiblings_groups
    {key : Flow → String}
    {flows : List Flow}
    {node : String → List Flow → Node}
    (differ :
      ∀ {first second firstMembers secondMembers},
        (node first firstMembers).key = (node second secondMembers).key →
        first = second)
    (each :
      ∀ name members,
        (name, members) ∈ groupBy key flows →
        (node name members).isLeaf = false ∧
          (node name members).children ≠ [] ∧
          Node.Everywhere Node.ProperSiblings
            (node name members).children) :
    Node.Everywhere Node.ProperSiblings
      (byKeyDescending <|
        (groupBy key flows).map
          fun (name, members) => node name members) := by
  rw [Node.everywhere_iff]
  refine ⟨⟨?_, ?_⟩, ?_⟩
  · exact ((byKeyDescending_perm _).map Node.key).nodup_iff.2
      (nodup_keys_groups differ)
  · intro group member
    obtain ⟨name, members, isGroup, rfl⟩ := mem_groups_iff.1 member
    obtain ⟨notLeaf, inhabited, _⟩ := each name members isGroup
    simp [notLeaf, inhabited]
  · intro group member
    obtain ⟨name, members, isGroup, rfl⟩ := mem_groups_iff.1 member
    exact (each name members isGroup).2.2

theorem properSiblings_leaves {offset : Int} {flows : List Flow}
    (ids : (flows.map Flow.id).Nodup) :
    Node.Everywhere Node.ProperSiblings (leaves offset flows) := by
  have isLeaf :
      ∀ node ∈ leaves offset flows,
        node.isLeaf = true ∧ node.children = [] := by
    intro node member
    obtain ⟨flow, _, rfl⟩ := List.mem_map.1 member
    exact ⟨rfl, rfl⟩
  rw [Node.everywhere_iff]
  refine ⟨⟨?_, ?_⟩, ?_⟩
  · unfold leaves
    rw [List.map_map]
    exact ((latestFirst_perm flows).map Flow.id).nodup_iff.2 ids
  · intro node member
    simp [isLeaf node member]
  · intro node member
    rw [(isLeaf node member).2]
    exact Node.everywhere_properSiblings_nil

theorem properSiblings_dayNodes
    {offset : Int}
    {keyStart : String}
    {flows : List Flow}
    (ids : (flows.map Flow.id).Nodup) :
    Node.Everywhere Node.ProperSiblings
      (dayNodes offset keyStart flows) := by
  apply properSiblings_groups
  · intro first second _ _ sameKey
    exact (String.append_right_inj keyStart).1 sameKey
  · intro day members group
    obtain ⟨_, inhabited⟩ := of_mem_groupBy group
    exact ⟨rfl, leaves_ne_nil inhabited,
      properSiblings_leaves (nodup_of_mem_groupBy group ids)⟩

theorem properSiblings_planNodes
    {offset : Int}
    {instanceId : String}
    {flows : List Flow}
    (ids : (flows.map Flow.id).Nodup) :
    Node.Everywhere Node.ProperSiblings
      (planNodes offset instanceId flows) := by
  apply properSiblings_groups
  · intro first second _ _ sameKey
    exact planKey_injective sameKey
  · intro planId members group
    obtain ⟨_, inhabited⟩ := of_mem_groupBy group
    exact ⟨rfl, groups_ne_nil inhabited,
      properSiblings_dayNodes (nodup_of_mem_groupBy group ids)⟩

theorem properSiblings_instanceNodes
    {offset : Int}
    {flows : List Flow}
    (ids : (flows.map Flow.id).Nodup) :
    Node.Everywhere Node.ProperSiblings (instanceNodes offset flows) := by
  apply properSiblings_groups
  · intro first second _ _ sameKey
    exact (String.append_right_inj "i").1 sameKey
  · intro instanceId members group
    obtain ⟨_, inhabited⟩ := of_mem_groupBy group
    exact ⟨rfl, groups_ne_nil inhabited,
      properSiblings_planNodes (nodup_of_mem_groupBy group ids)⟩

theorem properSiblings_tree
    (arrangement : Arrangement)
    {flows : List Flow}
    (ids : (flows.map Flow.id).Nodup) :
    Node.Everywhere Node.ProperSiblings
      (tree arrangement flows).roots := by
  unfold tree roots
  cases arrangement.scope with
  | plan => exact properSiblings_dayNodes ids
  | repository => exact properSiblings_instanceNodes ids

end Siblings

end Plain

/-- A branch of a tree is the way to the flow at its end. -/
theorem trail_of_flow?
    {arrangement : Arrangement}
    {flows : List Flow}
    {branch : Node.Branch}
    (member : branch ∈ (Plain.tree arrangement flows).branches)
    {flow : Flow}
    (isLast : branch.last.flow? = some flow) :
    branch.groups.map Node.face = arrangement.groupFaces flow := by
  have trail :=
    (Plain.trails_tree arrangement flows).mem_iff.1
      (List.mem_map_of_mem member)
  obtain ⟨other, _, sameTrail⟩ := List.mem_map.1 trail
  obtain ⟨sameGroups, sameLast⟩ := Prod.mk.inj sameTrail
  have found : branch.last.flow? = some other := by
    rw [← sameLast]
    rfl
  rw [isLast] at found
  cases found
  exact sameGroups.symm

/--
A tree of flows with different ids has each of them just once, in the place that
its instance, its plan and its local day give it.
-/
theorem build_partitions
    (arrangement : Arrangement)
    {flows : List Flow}
    (ids : (flows.map Flow.id).Nodup) :
    arrangement.Partitions flows (arrangement.build flows) := by
  rw [build_eq_tree arrangement (Flow.distinct_of_nodup ids)]
  have siblings := Plain.properSiblings_tree arrangement ids
  refine ⟨Plain.flows_tree arrangement flows,
    (Plain.flows_tree arrangement flows).length_eq,
    Plain.trails_tree arrangement flows, ?_, siblings⟩
  intro first isFirst second isSecond firstFlow secondFlow firstLast
    secondLast
  rw [← groupFaces_eq_iff, ← trail_of_flow? isFirst firstLast,
    ← trail_of_flow? isSecond secondLast]
  constructor
  · intro same
    rw [same]
  · intro sameFaces
    apply Node.groups_eq_of_keys
      (siblings.imp fun _ proper => proper.keys_nodup) isFirst isSecond
    have sameKeys := congrArg (List.map Prod.fst) sameFaces
    rw [List.map_map, List.map_map] at sameKeys
    exact sameKeys

/-- By a clock that is a second ahead all three runs are on New Year's Day. -/
theorem build_partitions_aroundLeap :
    let arrangement : Arrangement := ⟨.repository, 1, .none⟩
    (Flow.aroundLeap.map Flow.id).Nodup ∧
      arrangement.Partitions Flow.aroundLeap
        (arrangement.build Flow.aroundLeap) ∧
      (arrangement.build Flow.aroundLeap).flowCount = 3 ∧
      arrangement.Together Flow.leapRun Flow.newYearRun := by
  intro arrangement
  have ids : (Flow.aroundLeap.map Flow.id).Nodup := by decide
  have partitions := build_partitions arrangement ids
  refine ⟨ids, partitions, partitions.flowCount_eq, ?_, ?_⟩
  · exact fun _ => ⟨rfl, rfl⟩
  · decide

end Arrangement

end BackupHistory
