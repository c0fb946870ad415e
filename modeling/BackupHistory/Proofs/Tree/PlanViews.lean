import BackupHistory.Proofs.Tree.NewestFirst

namespace BackupHistory

/-!
# The plans of a repository

In the view of a repository every plan of an instance has a node, and below it
stands what the view of that plan alone would show of the same flows, the keys
of its days prefixed. Each plan has a budget of its own, so what starts out open
in the repository is what starts out open in the views of its plans.
-/

/-- The flows of one plan of an instance. -/
def Flow.inPlan
    (instanceId planId : String)
    (flows : List Flow) :
    List Flow :=
  flows.filter fun flow =>
    flow.instanceId = instanceId ∧ flow.planId = planId

/-- A node with a text put before its key. -/
def Node.withKeyStart (keyStart : String) (node : Node) : Node :=
  { node with key := keyStart ++ node.key }

/-- The node of a plan in the view of a repository, and which plan it is. -/
structure Tree.Plan where
  instanceId : String
  planId : String
  node : Node
  deriving Repr

/-- The plans below the node of an instance, in their order. -/
def Node.plans (root : Node) : List Tree.Plan :=
  root.children.filterMap fun node =>
    match root.content, node.content with
    | .instanceGroup instanceId _, .planGroup planId _ =>
        some ⟨instanceId, planId, node⟩
    | _, _ => none

/-- The plans of a tree, instance by instance. -/
def Tree.plans (tree : Tree) : List Tree.Plan :=
  tree.roots.flatMap Node.plans

/-- The only element that passes a test is the first one. -/
theorem filter_eq_toList_find?
    {test : α → Bool}
    {elements : List α}
    (single :
      elements.Pairwise fun first second =>
        ¬ (test first = true ∧ test second = true)) :
    elements.filter test = (elements.find? test).toList := by
  induction elements with
  | nil => rfl
  | cons first rest inductionHypothesis =>
      obtain ⟨alone, restSingle⟩ := List.pairwise_cons.1 single
      rw [List.filter_cons, List.find?_cons]
      cases passes : test first with
      | false => exact inductionHypothesis restSingle
      | true =>
          have none : rest.filter test = [] :=
            List.filter_eq_nil_iff.2 fun other member otherPasses =>
              alone other member ⟨passes, otherPasses⟩
          rw [if_pos rfl, none]
          rfl

/-- Testing parts is testing the wholes that they agree with. -/
theorem filter_flatMap_eq
    {parts : α → List β}
    {test : α → Bool}
    {testPart : β → Bool}
    {elements : List α}
    (agree :
      ∀ element ∈ elements, ∀ part ∈ parts element,
        testPart part = test element) :
    (elements.flatMap parts).filter testPart =
      (elements.filter test).flatMap parts := by
  induction elements with
  | nil => rfl
  | cons first rest inductionHypothesis =>
      have later :=
        inductionHypothesis fun element member =>
          agree element (List.mem_cons_of_mem first member)
      have own := agree first List.mem_cons_self
      rw [List.flatMap_cons, List.filter_append, later, List.filter_cons]
      cases passes : test first with
      | false =>
          have none : (parts first).filter testPart = [] :=
            List.filter_eq_nil_iff.2 fun part member => by
              rw [own part member, passes]
              exact Bool.false_ne_true
          rw [none]
          rfl
      | true =>
          have all : (parts first).filter testPart = parts first :=
            List.filter_eq_self.2 fun part member => by
              rw [own part member, passes]
          rw [all]
          rfl

namespace Arrangement

namespace Plain

variable {offset : Int} {flows : List Flow}

section Days

theorem dayNode_keyStart (keyStart day : String) (members : List Flow) :
    dayNode offset keyStart day members =
      (dayNode offset "" day members).withKeyStart keyStart := by
  unfold dayNode Node.withKeyStart
  simp only [String.empty_append]

/-- The days of flows are the same ones wherever they stand. -/
theorem dayNodes_keyStart (keyStart : String) (flows : List Flow) :
    dayNodes offset keyStart flows =
      (dayNodes offset "" flows).map (Node.withKeyStart keyStart) := by
  have sorted (nodes : List Node) :
      byKeyDescending (nodes.map (Node.withKeyStart keyStart)) =
        (byKeyDescending nodes).map (Node.withKeyStart keyStart) := by
    unfold byKeyDescending
    refine (List.map_mergeSort fun left _ right _ => ?_).symm
    rw [decide_eq_decide, ← String.not_lt, ← String.not_lt]
    exact not_congr (append_lt_append_iff keyStart left.key right.key).symm
  unfold dayNodes
  rw [← sorted, List.map_map]
  simp only [Function.comp_def, dayNode_keyStart keyStart]

theorem flows_withKeyStart (keyStart : String) (node : Node) :
    (node.withKeyStart keyStart).flows = node.flows := by
  obtain ⟨key, content, children⟩ := node
  cases content <;> rfl

theorem flowsOfAll_dayNodes_keyStart
    (keyStart : String)
    (flows : List Flow) :
    Node.flowsOfAll (dayNodes offset keyStart flows) =
      Node.flowsOfAll (dayNodes offset "" flows) := by
  rw [dayNodes_keyStart keyStart, Node.flowsOfAll_eq_flatMap,
    Node.flowsOfAll_eq_flatMap, List.flatMap_map]
  simp only [flows_withKeyStart]

end Days

section Plans

/-- Every node below an instance is the node of a plan. -/
theorem map_node_plans {root : Node}
    (member : root ∈ instanceNodes offset flows) :
    root.plans.map Tree.Plan.node = root.children := by
  obtain ⟨instanceId, members, _, rfl⟩ := mem_groups_iff.1 member
  unfold Node.plans
  rw [List.map_filterMap]
  refine (List.filterMap_congr fun node isPlan => ?_).trans
    List.filterMap_some
  obtain ⟨planId, planFlows, _, rfl⟩ := mem_groups_iff.1 isPlan
  rfl

/-- A plan's node is built from the flows of the plan. -/
theorem node_of_mem_plans {root : Node}
    (member : root ∈ instanceNodes offset flows)
    {plan : Tree.Plan}
    (isPlan : plan ∈ root.plans) :
    root.instanceId? = some plan.instanceId ∧
      plan.node =
        planNode offset plan.instanceId plan.planId
          (Flow.inPlan plan.instanceId plan.planId flows) := by
  obtain ⟨instanceId, members, group, rfl⟩ := mem_groups_iff.1 member
  obtain ⟨node, isNode, found⟩ := List.mem_filterMap.1 isPlan
  obtain ⟨planId, planFlows, planGroup, rfl⟩ := mem_groups_iff.1 isNode
  cases found
  refine ⟨rfl, ?_⟩
  have sameFlows : planFlows = Flow.inPlan instanceId planId flows := by
    rw [((mem_groupBy_iff ..).1 planGroup).1,
      ((mem_groupBy_iff ..).1 group).1, List.filter_filter]
    unfold Flow.inPlan
    refine List.filter_congr fun flow _ => ?_
    rw [Bool.and_comm, Bool.decide_and]
  rw [sameFlows]

/-- Every flow's plan has a node. -/
theorem exists_plan_of_mem {flow : Flow} (member : flow ∈ flows) :
    ∃ root ∈ instanceNodes offset flows,
      ∃ plan ∈ root.plans,
        plan.instanceId = flow.instanceId ∧ plan.planId = flow.planId := by
  obtain ⟨members, group, isMember⟩ :=
    exists_group_of_mem Flow.instanceId member
  obtain ⟨planFlows, planGroup, _⟩ :=
    exists_group_of_mem Flow.planId isMember
  have isRoot :
      instanceNode offset flow.instanceId members ∈
        instanceNodes offset flows :=
    mem_groups_iff.2 ⟨flow.instanceId, members, group, rfl⟩
  have isNode :
      planNode offset flow.instanceId flow.planId planFlows ∈
        planNodes offset flow.instanceId members :=
    mem_groups_iff.2 ⟨flow.planId, planFlows, planGroup, rfl⟩
  exact ⟨_, isRoot, ⟨flow.instanceId, flow.planId, _⟩,
    List.mem_filterMap.2 ⟨_, isNode, rfl⟩, rfl, rfl⟩

theorem key_of_instanceId? {root : Node}
    (member : root ∈ instanceNodes offset flows)
    {instanceId : String}
    (isInstance : root.instanceId? = some instanceId) :
    root.key = "i" ++ instanceId := by
  obtain ⟨_, _, _, rfl⟩ := mem_groups_iff.1 member
  cases isInstance
  rfl

theorem instanceNodes_descending (offset : Int) (flows : List Flow) :
    (instanceNodes offset flows).Pairwise fun left right =>
      right.key < left.key :=
  groups_pairwise fun sameKey => (String.append_right_inj "i").1 sameKey

/-- Each instance has one root. -/
theorem instanceNodes_pairwise
    (offset : Int)
    (instanceId : String)
    (flows : List Flow) :
    (instanceNodes offset flows).Pairwise fun first second =>
      ¬ ((first.instanceId? == some instanceId) = true ∧
        (second.instanceId? == some instanceId) = true) := by
  refine (instanceNodes_descending offset flows).imp_of_mem ?_
  rintro first second isFirst isSecond below ⟨firstSame, secondSame⟩
  rw [key_of_instanceId? isFirst (eq_of_beq firstSame),
    key_of_instanceId? isSecond (eq_of_beq secondSame)] at below
  exact String.lt_irrefl _ below

/-- The node of a plan is told from others by its instance and its plan. -/
theorem plans_nodup (offset : Int) (flows : List Flow) :
    (((instanceNodes offset flows).flatMap Node.plans).map fun plan =>
      (plan.instanceId, plan.planId)).Nodup := by
  rw [List.map_flatMap, List.nodup_flatMap]
  constructor
  · intro root member
    have keys :
        (root.plans.map fun plan => plan.node.key) =
          (root.plans.map fun plan =>
            (plan.instanceId, plan.planId)).map fun (instanceId, planId) =>
              planKey instanceId planId := by
      rw [List.map_map]
      refine List.map_congr_left fun plan isPlan => ?_
      rw [(node_of_mem_plans member isPlan).2]
      rfl
    have differ : (root.plans.map fun plan => plan.node.key).Nodup := by
      have ofChildren :
          (root.plans.map fun plan => plan.node.key) =
            root.children.map Node.key := by
        rw [← map_node_plans member, List.map_map]
        rfl
      obtain ⟨instanceId, members, _, rfl⟩ := mem_groups_iff.1 member
      rw [ofChildren]
      exact ((byKeyDescending_perm _).map Node.key).nodup_iff.2
        (nodup_keys_groups fun sameKey => planKey_injective sameKey)
    rw [keys] at differ
    exact differ.of_map _
  · refine (instanceNodes_descending offset flows).imp_of_mem ?_
    intro left right isLeft isRight below both inLeft inRight
    obtain ⟨leftPlan, isLeftPlan, rfl⟩ := List.mem_map.1 inLeft
    obtain ⟨rightPlan, isRightPlan, same⟩ := List.mem_map.1 inRight
    have sameInstance : rightPlan.instanceId = leftPlan.instanceId :=
      (Prod.mk.inj same).1
    rw [key_of_instanceId? isLeft (node_of_mem_plans isLeft isLeftPlan).1,
      key_of_instanceId? isRight (node_of_mem_plans isRight isRightPlan).1,
      sameInstance] at below
    exact String.lt_irrefl _ below

end Plans

end Plain

section PlanTrees

variable {offset : Int} {flows : List Flow}

/-- The tree of one plan by itself. -/
def planTree
    (offset : Int)
    (options : TreeOptions)
    (flows : List Flow)
    (plan : Tree.Plan) :
    Tree :=
  build ⟨.plan, offset, options⟩
    (Flow.inPlan plan.instanceId plan.planId flows)

theorem planTree_eq
    (options : TreeOptions)
    (ids : (flows.map Flow.id).Nodup)
    (plan : Tree.Plan) :
    planTree offset options flows plan =
      Plain.tree ⟨.plan, offset, options⟩
        (Flow.inPlan plan.instanceId plan.planId flows) :=
  build_eq_tree _
    (Flow.distinct_of_nodup (Flow.nodup_ids_filter _ ids))

/-- A plan's node has the days of the plan's own tree. -/
theorem children_of_mem_plans
    (options : TreeOptions)
    (ids : (flows.map Flow.id).Nodup)
    {root : Node}
    (member : root ∈ Plain.instanceNodes offset flows)
    {plan : Tree.Plan}
    (isPlan : plan ∈ root.plans) :
    plan.node.children =
      (planTree offset options flows plan).roots.map
        (Node.withKeyStart plan.node.key) := by
  obtain ⟨_, isNode⟩ := Plain.node_of_mem_plans member isPlan
  rw [planTree_eq options ids, isNode]
  exact Plain.dayNodes_keyStart _ _

section Expanded

variable {budget : Nat} {expandInstance : Option String}

/-- The days of a plan's node open what the plan's own tree opens. -/
theorem share_of_mem_plans
    (ids : (flows.map Flow.id).Nodup)
    {root : Node}
    (member : root ∈ Plain.instanceNodes offset flows)
    {plan : Tree.Plan}
    (isPlan : plan ∈ root.plans) :
    ExpansionPolicy.share
        { ExpansionPolicy.ofScope .repository with budget := budget }
        plan.node.children =
      (planTree offset (budgeted .plan budget none) flows
        plan).expanded := by
  obtain ⟨_, isNode⟩ := Plain.node_of_mem_plans member isPlan
  have opened :
      (planTree offset (budgeted .plan budget none) flows plan).expanded =
        ((Node.flowsOfAll (Plain.dayNodes offset ""
          (Flow.inPlan plan.instanceId plan.planId flows))).map
          Flow.id).take budget := by
    rw [planTree_eq _ ids]
    exact expandedKeys_plan offset budget none "" _
  rw [opened, ← Plain.flowsOfAll_dayNodes_keyStart
      (planKey plan.instanceId plan.planId),
    ← Plain.map_key_atDepth_dayNodes, isNode]
  rfl

/-- Below instances each plan opens its share. -/
theorem expand_repository (budget : Nat) (nodes : List Node) :
    ExpansionPolicy.expand
        { ExpansionPolicy.ofScope .repository with budget := budget }
        nodes =
      nodes.flatMap fun root =>
        root.children.flatMap fun plan =>
          ExpansionPolicy.share
            { ExpansionPolicy.ofScope .repository with budget := budget }
            plan.children := by
  rw [ExpansionPolicy.expand_eq_flatMap_share]
  change (Node.siblingLists 2 nodes).flatMap _ = _
  simp only [Node.siblingLists, List.flatMap_assoc,
    List.flatMap_singleton]

/-- Below instances each plan opens what the plan's own tree opens. -/
theorem expand_instanceNodes
    (ids : (flows.map Flow.id).Nodup)
    {nodes : List Node}
    (within : ∀ root ∈ nodes, root ∈ Plain.instanceNodes offset flows) :
    ExpansionPolicy.expand
        { ExpansionPolicy.ofScope .repository with budget := budget }
        nodes =
      (nodes.flatMap Node.plans).flatMap fun plan =>
        (planTree offset (budgeted .plan budget none) flows
          plan).expanded := by
  rw [expand_repository, List.flatMap_assoc]
  refine List.flatMap_congr fun root member => ?_
  rw [← Plain.map_node_plans (within root member), List.flatMap_map]
  exact List.flatMap_congr fun plan isPlan =>
    share_of_mem_plans ids (within root member) isPlan

/-- The roots that are expanded are those of the chosen instance, if any. -/
theorem expandedKeys_repository (offset : Int) (flows : List Flow) :
    expandedKeys
        ⟨.repository, offset, budgeted .repository budget expandInstance⟩
        (Plain.instanceNodes offset flows) =
      ExpansionPolicy.expand
        { ExpansionPolicy.ofScope .repository with budget := budget }
        ((Plain.instanceNodes offset flows).filter fun root =>
          expandInstance.all fun instanceId =>
            root.instanceId? == some instanceId) := by
  cases expandInstance with
  | none =>
      simp only [Option.all_none, List.filter_true]
      rfl
  | some instanceId =>
      simp only [Option.all_some, expandedKeys, budgeted]
      rw [filter_eq_toList_find?
        (Plain.instanceNodes_pairwise offset instanceId flows)]
      cases (Plain.instanceNodes offset flows).find? fun root =>
          root.instanceId? == some instanceId with
      | none => exact (expand_repository budget []).symm
      | some root => rfl

/-- The plans of the chosen instance are those below the chosen root. -/
theorem filter_plans (offset : Int) (flows : List Flow) :
    ((Plain.instanceNodes offset flows).flatMap Node.plans).filter
        (fun plan => expandInstance.all (· == plan.instanceId)) =
      ((Plain.instanceNodes offset flows).filter fun root =>
        expandInstance.all fun instanceId =>
          root.instanceId? == some instanceId).flatMap Node.plans := by
  apply filter_flatMap_eq
  intro root member plan isPlan
  rw [(Plain.node_of_mem_plans member isPlan).1]
  cases expandInstance with
  | none => rfl
  | some instanceId => simp [eq_comm]

end Expanded

end PlanTrees

/--
Every plan of an instance that flows have has one node in the view of a
repository. Below it stand the days of the plan's own tree, their keys after the
key of the node. With one budget for all trees the repository opens what the
trees of its plans open, one after another, or those of the plans of one
instance if only that is expanded.
-/
theorem build_repository_eq_planTrees
    (offset : Int)
    {flows : List Flow}
    (ids : (flows.map Flow.id).Nodup) :
    (∀ options planOptions,
      let tree := build ⟨.repository, offset, options⟩ flows
      tree.plans.map Tree.Plan.node = tree.roots.flatMap Node.children ∧
      (tree.plans.map fun plan => (plan.instanceId, plan.planId)).Nodup ∧
      (∀ flow ∈ flows,
        ∃ plan ∈ tree.plans,
          plan.instanceId = flow.instanceId ∧
            plan.planId = flow.planId) ∧
      ∀ plan ∈ tree.plans,
        plan.node.children =
          (planTree offset planOptions flows plan).roots.map
            (Node.withKeyStart plan.node.key)) ∧
    ∀ budget expandInstance,
      let tree :=
        build
          ⟨.repository, offset,
            budgeted .repository budget expandInstance⟩ flows
      tree.expanded =
        (tree.plans.filter fun plan =>
            expandInstance.all (· == plan.instanceId)).flatMap
          fun plan =>
            (planTree offset (budgeted .plan budget none) flows
              plan).expanded := by
  have plain (options : TreeOptions) :
      build ⟨.repository, offset, options⟩ flows =
        Plain.tree ⟨.repository, offset, options⟩ flows :=
    build_eq_tree _ (Flow.distinct_of_nodup ids)
  constructor
  · intro options planOptions tree
    have roots : tree.roots = Plain.instanceNodes offset flows :=
      congrArg Tree.roots (plain options)
    have plans :
        tree.plans =
          (Plain.instanceNodes offset flows).flatMap Node.plans :=
      congrArg (List.flatMap Node.plans) roots
    rw [plans, roots]
    refine ⟨?_, Plain.plans_nodup offset flows, ?_, ?_⟩
    · rw [List.map_flatMap]
      exact List.flatMap_congr fun root member =>
        Plain.map_node_plans member
    · intro flow member
      obtain ⟨root, isRoot, plan, isPlan, samePlan⟩ :=
        Plain.exists_plan_of_mem member
      exact ⟨plan, List.mem_flatMap.2 ⟨root, isRoot, isPlan⟩, samePlan⟩
    · intro plan isPlan
      obtain ⟨root, isRoot, isPlan⟩ := List.mem_flatMap.1 isPlan
      exact children_of_mem_plans planOptions ids isRoot isPlan
  · intro budget expandInstance tree
    have plans :
        tree.plans =
          (Plain.instanceNodes offset flows).flatMap Node.plans :=
      congrArg Tree.plans (plain _)
    have expanded :
        tree.expanded =
          expandedKeys
            ⟨.repository, offset,
              budgeted .repository budget expandInstance⟩
            (Plain.instanceNodes offset flows) :=
      congrArg Tree.expanded (plain _)
    rw [plans, expanded, filter_plans, expandedKeys_repository,
      expand_instanceNodes ids]
    exact fun root member => (List.mem_filter.1 member).1

/-- The weekly plan of the sample has a node, and each plan opens one run. -/
theorem build_repository_eq_planTrees_aroundLeap :
    let tree :=
      build ⟨.repository, 0, budgeted .repository 1 (some "home")⟩
        Flow.aroundLeap
    (Flow.aroundLeap.map Flow.id).Nodup ∧
      (∃ plan ∈ tree.plans,
        plan.instanceId = "home" ∧
          plan.planId = "weekly" ∧
          plan.node.children =
            (planTree 0 .none Flow.aroundLeap plan).roots.map
              (Node.withKeyStart plan.node.key)) ∧
      tree.expanded =
        (tree.plans.filter fun plan => "home" == plan.instanceId).flatMap
          fun plan =>
            (planTree 0 (budgeted .plan 1 none) Flow.aroundLeap
              plan).expanded := by
  intro tree
  have ids : (Flow.aroundLeap.map Flow.id).Nodup := by decide
  obtain ⟨shape, opened⟩ := build_repository_eq_planTrees 0 ids
  obtain ⟨_, _, exists_plan, children⟩ :=
    shape (budgeted .repository 1 (some "home")) .none
  obtain ⟨plan, isPlan, isHome, isWeekly⟩ :=
    exists_plan Flow.oldYearRun (by decide)
  exact ⟨ids, ⟨plan, isPlan, isHome, isWeekly, children plan isPlan⟩,
    opened 1 (some "home")⟩

end Arrangement

end BackupHistory
