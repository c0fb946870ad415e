import BackupHistory.Proofs.Tree.Nodes
import BackupHistory.Proofs.Tree.Partition

namespace BackupHistory

/-!
# Keys of a view

The keys of groups are put together from the ids of flows and the texts of days,
and flows have their own ids as keys. All of them are meant to be told apart by
one search, which works just as long as no flow is called like a group and no
two plans or instances are called like one another. `Arrangement.KeysApart` says
so of the flows, and `Arrangement.build_keysIdentify_iff` is the main statement.
-/

/-- The nodes of a tree, depth first. -/
def Tree.nodes (tree : Tree) : List Node :=
  Node.nodesOfAll tree.roots

/-- A tree in which every key stands for one node. -/
structure Tree.KeysIdentify (tree : Tree) : Prop where
  nodup : (tree.nodes.map Node.key).Nodup
  find?_key : ∀ node ∈ tree.nodes, tree.find? node.key = some node
  expanded :
    ∀ key ∈ tree.expanded,
      ∃ node, (tree.nodes.filter fun other => other.key = key) = [node]
  openKeys :
    ∀ key ∈ tree.openKeys.keys,
      ∃ node, (tree.nodes.filter fun other => other.key = key) = [node]

namespace Arrangement

/-- The keys of the groups that a flow stands under, from the top. -/
def groupKeys (arrangement : Arrangement) (flow : Flow) : List String :=
  (arrangement.groupFaces flow).map Prod.fst

/-- The key of the day that a flow stands under in the view of a repository. -/
def dayKey (offset : Int) (flow : Flow) : String :=
  planKey flow.instanceId flow.planId ++ flow.time.dayText offset

/-- Flows whose ids do not make two nodes of a view have the same key. -/
structure KeysApart
    (arrangement : Arrangement)
    (flows : List Flow) :
    Prop where
  /-- No flow is called like a group. -/
  id_not_mem :
    ∀ flow ∈ flows, ∀ other ∈ flows,
      flow.id ∉ arrangement.groupKeys other
  /-- No instance is called like a plan or like a day of a plan. -/
  instance_ne :
    arrangement.scope = .repository →
    ∀ flow ∈ flows, ∀ other ∈ flows,
      "i" ++ flow.instanceId ≠ planKey other.instanceId other.planId ∧
        "i" ++ flow.instanceId ≠ dayKey arrangement.offset other
  /-- No two plans are called like one another. -/
  plan_eq :
    arrangement.scope = .repository →
    ∀ flow ∈ flows, ∀ other ∈ flows,
      planKey flow.instanceId flow.planId =
        planKey other.instanceId other.planId →
      flow.instanceId = other.instanceId ∧ flow.planId = other.planId

/-- The character that separates the parts of a plan's key. -/
def separator : Char :=
  '\x01'

section Separator

/-- What stands before the last of some characters, and what after it. -/
theorem split_at_last
    {character : Char}
    {first second firstRest secondRest : List Char}
    (same :
      first ++ character :: firstRest = second ++ character :: secondRest)
    (notFirst : character ∉ firstRest)
    (notSecond : character ∉ secondRest) :
    first = second ∧ firstRest = secondRest := by
  rcases List.append_eq_append_iff.1 same with
    ⟨between, rfl, rest⟩ | ⟨between, rfl, rest⟩
  · cases between with
    | nil => exact ⟨(List.append_nil _).symm, List.tail_eq_of_cons_eq rest⟩
    | cons head tail =>
        obtain ⟨_, inFirst⟩ := List.cons.inj rest
        exact (notFirst (inFirst ▸ by simp)).elim
  · cases between with
    | nil => exact ⟨List.append_nil _, (List.tail_eq_of_cons_eq rest).symm⟩
    | cons head tail =>
        obtain ⟨_, inSecond⟩ := List.cons.inj rest
        exact (notSecond (inSecond ▸ by simp)).elim

theorem toList_planKey (instanceId planId : String) :
    (planKey instanceId planId).toList =
      planId.toList ++ separator :: (instanceId.toList ++ [separator]) := by
  unfold planKey keySeparator
  simp [separator]

/-- The separator is not among the digits and signs of a day. -/
theorem separator_not_mem_dayText (offset : Int) (instant : Instant) :
    ¬ separator ∈ (instant.dayText offset).toList := by
  have notDigit : ∀ digit : Digit, digit.toChar ≠ separator := by
    unfold separator
    decide
  have notPadded (width number : Nat) :
      separator ∉ paddedText width number := by
    rw [paddedText_eq_map, List.mem_map]
    rintro ⟨digit, _, isSeparator⟩
    exact notDigit digit isSeparator
  have notSign : separator ≠ '-' ∧ separator ≠ '+' := by
    unfold separator
    decide
  have notYear (year : Int) : separator ∉ Date.yearText year := by
    unfold Date.yearText
    split
    next => simp [notSign.1, notPadded]
    next =>
      split
      next => simp [notSign.2, notPadded]
      next => exact notPadded 4 year.natAbs
  rw [Instant.dayText_eq, String.toList_ofList]
  unfold Date.toText
  simp [notSign.1, notPadded, notYear]

theorem dayText_ne_nil (offset : Int) (instant : Instant) :
    (instant.dayText offset).toList ≠ [] := by
  rw [Instant.dayText_eq, String.toList_ofList]
  unfold Date.toText
  simp

/-- What follows the last separator of a key is the day, or nothing. -/
theorem planKey_append_inj
    {first second : Flow}
    {firstDay secondDay : List Char}
    (same :
      (planKey first.instanceId first.planId).toList ++ firstDay =
        (planKey second.instanceId second.planId).toList ++ secondDay)
    (notFirst : separator ∉ firstDay)
    (notSecond : separator ∉ secondDay) :
    planKey first.instanceId first.planId =
        planKey second.instanceId second.planId ∧
      firstDay = secondDay := by
  have split (flow : Flow) (day : List Char) :
      (planKey flow.instanceId flow.planId).toList ++ day =
        (flow.planId.toList ++ separator :: flow.instanceId.toList) ++
          separator :: day := by
    rw [toList_planKey]
    simp
  rw [split, split] at same
  obtain ⟨sameStart, sameDay⟩ := split_at_last same notFirst notSecond
  refine ⟨String.toList_injective ?_, sameDay⟩
  rw [← List.append_cancel_right_eq _ [], split, split, sameStart]

theorem dayKey_ne_planKey (offset : Int) (first second : Flow) :
    dayKey offset first ≠ planKey second.instanceId second.planId := by
  intro same
  have texts :
      (planKey first.instanceId first.planId).toList ++
          (first.time.dayText offset).toList =
        (planKey second.instanceId second.planId).toList ++ [] := by
    rw [List.append_nil, ← same, dayKey, String.toList_append]
  have noDay :=
    (planKey_append_inj texts (separator_not_mem_dayText _ _)
      List.not_mem_nil).2
  exact dayText_ne_nil offset first.time noDay

/-- The key of a day tells the plan and the day. -/
theorem dayKey_inj {offset : Int} {first second : Flow}
    (same : dayKey offset first = dayKey offset second) :
    planKey first.instanceId first.planId =
        planKey second.instanceId second.planId ∧
      first.time.dayText offset = second.time.dayText offset := by
  have texts := congrArg String.toList same
  unfold dayKey at texts
  rw [String.toList_append, String.toList_append] at texts
  obtain ⟨samePlan, sameDay⟩ :=
    planKey_append_inj texts (separator_not_mem_dayText _ _)
      (separator_not_mem_dayText _ _)
  exact ⟨samePlan, String.toList_injective sameDay⟩

/-- Where no instance id has a separator, keys of plans tell the plans. -/
theorem planKey_inj_of_not_mem {first second : Flow}
    (notFirst : separator ∉ first.instanceId.toList)
    (notSecond : separator ∉ second.instanceId.toList)
    (same :
      planKey first.instanceId first.planId =
        planKey second.instanceId second.planId) :
    first.instanceId = second.instanceId ∧ first.planId = second.planId := by
  have texts := congrArg String.toList same
  rw [toList_planKey, toList_planKey, ← List.cons_append,
    ← List.cons_append, ← List.append_assoc, ← List.append_assoc] at texts
  obtain ⟨samePlan, sameInstance⟩ :=
    split_at_last (List.append_cancel_right texts) notFirst notSecond
  exact
    ⟨String.toList_injective sameInstance,
      String.toList_injective samePlan⟩

/-- Flows keep apart if none is called like a group and no instance id has a
separator. -/
theorem keysApart_of_not_mem
    {arrangement : Arrangement}
    {flows : List Flow}
    (clean : ∀ flow ∈ flows, separator ∉ flow.instanceId.toList)
    (notGroup :
      ∀ flow ∈ flows, ∀ other ∈ flows,
        flow.id ∉ arrangement.groupKeys other) :
    arrangement.KeysApart flows := by
  have inPlanKey (flow : Flow) :
      separator ∈ (planKey flow.instanceId flow.planId).toList := by
    rw [toList_planKey]
    simp
  have inDayKey (flow : Flow) :
      separator ∈ (dayKey arrangement.offset flow).toList := by
    rw [dayKey, String.toList_append]
    exact List.mem_append_left _ (inPlanKey flow)
  refine ⟨notGroup, fun _ flow member other _ => ?_,
    fun _ flow member other isOther =>
      planKey_inj_of_not_mem (clean flow member) (clean other isOther)⟩
  have notInstance : separator ∉ ("i" ++ flow.instanceId).toList := by
    have notPrefix : separator ∉ "i".toList := by
      unfold separator
      decide
    rw [String.toList_append, List.mem_append, not_or]
    exact ⟨notPrefix, clean flow member⟩
  exact
    ⟨fun same => notInstance (same ▸ inPlanKey other),
      fun same => notInstance (same ▸ inDayKey other)⟩

end Separator

section Ways

theorem groupKeys_of_plan
    {arrangement : Arrangement}
    (scope : arrangement.scope = .plan)
    (flow : Flow) :
    arrangement.groupKeys flow = [flow.time.dayText arrangement.offset] := by
  unfold groupKeys groupFaces
  rw [scope]
  exact congrArg (fun key => [key]) String.empty_append

theorem groupFaces_of_repository
    {arrangement : Arrangement}
    (scope : arrangement.scope = .repository)
    (flow : Flow) :
    arrangement.groupFaces flow =
      [instanceFace flow, planFace flow,
        dayFace arrangement.offset (planKey flow.instanceId flow.planId)
          flow] := by
  unfold groupFaces
  rw [scope]

theorem groupKeys_of_repository
    {arrangement : Arrangement}
    (scope : arrangement.scope = .repository)
    (flow : Flow) :
    arrangement.groupKeys flow =
      ["i" ++ flow.instanceId, planKey flow.instanceId flow.planId,
        dayKey arrangement.offset flow] := by
  unfold groupKeys
  rw [groupFaces_of_repository scope]
  rfl

section Faces

variable {arrangement : Arrangement} (scope : arrangement.scope = .repository)
  (flow : Flow)

include scope

theorem instanceFace_mem :
    instanceFace flow ∈ arrangement.groupFaces flow := by
  rw [groupFaces_of_repository scope]
  exact List.mem_cons_self

theorem planFace_mem : planFace flow ∈ arrangement.groupFaces flow := by
  rw [groupFaces_of_repository scope]
  exact List.mem_cons_of_mem _ List.mem_cons_self

theorem dayFace_mem :
    dayFace arrangement.offset (planKey flow.instanceId flow.planId) flow ∈
      arrangement.groupFaces flow := by
  rw [groupFaces_of_repository scope]
  exact List.mem_cons_of_mem _ (List.mem_cons_of_mem _ List.mem_cons_self)

end Faces

/-- The keys on the way to a flow, its own last. -/
def wayTo (arrangement : Arrangement) (flow : Flow) : List String :=
  arrangement.groupKeys flow ++ [flow.id]

section Forking

variable {arrangement : Arrangement} {flows : List Flow} {first second : Flow}

theorem KeysApart.forks_of_plan
    (apart : arrangement.KeysApart flows)
    (isFirst : first ∈ flows)
    (isSecond : second ∈ flows)
    (sameFlow : first.id = second.id → first = second)
    (scope : arrangement.scope = .plan) :
    Node.Forks (arrangement.wayTo first) (arrangement.wayTo second) := by
  have firstFirst := apart.id_not_mem first isFirst first isFirst
  have firstSecond := apart.id_not_mem first isFirst second isSecond
  have secondFirst := apart.id_not_mem second isSecond first isFirst
  have secondSecond := apart.id_not_mem second isSecond second isSecond
  unfold wayTo
  simp only [groupKeys_of_plan scope, List.mem_singleton] at *
  refine (Node.forks_singleton _ _).under ?_ ?_ ?_
  · intro same
    rw [sameFlow same]
  · simp [Ne.symm firstFirst, Ne.symm secondFirst]
  · simp [Ne.symm firstSecond, Ne.symm secondSecond]

theorem KeysApart.forks_of_repository
    (apart : arrangement.KeysApart flows)
    (isFirst : first ∈ flows)
    (isSecond : second ∈ flows)
    (sameFlow : first.id = second.id → first = second)
    (scope : arrangement.scope = .repository) :
    Node.Forks (arrangement.wayTo first) (arrangement.wayTo second) := by
  have firstFirst := apart.id_not_mem first isFirst first isFirst
  have firstSecond := apart.id_not_mem first isFirst second isSecond
  have secondFirst := apart.id_not_mem second isSecond first isFirst
  have secondSecond := apart.id_not_mem second isSecond second isSecond
  have instances := apart.instance_ne scope
  have days := dayKey_ne_planKey arrangement.offset
  unfold wayTo
  simp only [groupKeys_of_repository scope, List.mem_cons, not_or,
    List.not_mem_nil, not_false_eq_true, and_true] at *
  -- The ways fork below the day, then below the plan and the instance.
  have belowPlan :
      Node.Forks [dayKey arrangement.offset first, first.id]
        [dayKey arrangement.offset second, second.id] := by
    refine (Node.forks_singleton _ _).under ?_ ?_ ?_
    · intro same
      rw [sameFlow same]
    · simp [Ne.symm firstFirst.2.2, Ne.symm secondFirst.2.2]
    · simp [Ne.symm firstSecond.2.2, Ne.symm secondSecond.2.2]
  have belowInstance :
      Node.Forks
        [planKey first.instanceId first.planId,
          dayKey arrangement.offset first, first.id]
        [planKey second.instanceId second.planId,
          dayKey arrangement.offset second, second.id] := by
    refine belowPlan.under (fun same => (dayKey_inj same).1) ?_ ?_
    · simp [Ne.symm (days _ _), Ne.symm firstFirst.2.1,
        Ne.symm secondFirst.2.1]
    · simp [Ne.symm (days _ _), Ne.symm firstSecond.2.1,
        Ne.symm secondSecond.2.1]
  refine belowInstance.under ?_ ?_ ?_
  · intro same
    rw [(apart.plan_eq scope first isFirst second isSecond same).1]
  · simp [instances first isFirst, isFirst, isSecond, Ne.symm firstFirst.1,
      Ne.symm secondFirst.1]
  · simp [instances second isSecond, isFirst, isSecond,
      Ne.symm firstSecond.1, Ne.symm secondSecond.1]

end Forking

/-- The ways to flows that keep apart part for good. -/
theorem KeysApart.forks
    {arrangement : Arrangement}
    {flows : List Flow}
    (apart : arrangement.KeysApart flows)
    (ids : (flows.map Flow.id).Nodup)
    {first second : Flow}
    (isFirst : first ∈ flows)
    (isSecond : second ∈ flows) :
    Node.Forks (arrangement.wayTo first) (arrangement.wayTo second) := by
  have sameFlow : first.id = second.id → first = second :=
    List.inj_on_of_nodup_map ids isFirst isSecond
  cases scope : arrangement.scope with
  | plan => exact apart.forks_of_plan isFirst isSecond sameFlow scope
  | repository =>
      exact apart.forks_of_repository isFirst isSecond sameFlow scope

end Ways

section Nodes

variable {arrangement : Arrangement} {flows : List Flow}

/-- The leaf of a flow is a node of the tree. -/
theorem leafNode_mem_nodes {flow : Flow} (member : flow ∈ flows) :
    leafNode arrangement.offset flow ∈
      (Plain.tree arrangement flows).nodes := by
  have trail :=
    (Plain.trails_tree arrangement flows).mem_iff.2
      (List.mem_map_of_mem member)
  obtain ⟨branch, isBranch, same⟩ := List.mem_map.1 trail
  exact Node.mem_nodesOfAll_of_mem_branchesOfAll isBranch
    (.inr (Prod.mk.inj same).2.symm)

/-- The groups that a flow stands under are nodes of the tree. -/
theorem exists_node_of_mem_groupFaces
    {flow : Flow}
    (member : flow ∈ flows)
    {face : String × Node.Content}
    (isFace : face ∈ arrangement.groupFaces flow) :
    ∃ node ∈ (Plain.tree arrangement flows).nodes, node.face = face := by
  have trail :=
    (Plain.trails_tree arrangement flows).mem_iff.2
      (List.mem_map_of_mem member)
  obtain ⟨branch, isBranch, same⟩ := List.mem_map.1 trail
  rw [← (Prod.mk.inj same).1] at isFace
  obtain ⟨node, isGroup, rfl⟩ := List.mem_map.1 isFace
  exact
    ⟨node,
      Node.mem_nodesOfAll_of_mem_branchesOfAll isBranch (.inl isGroup),
      rfl⟩

/-- The nodes on a branch have the keys on the way to its flow. -/
theorem exists_wayTo_eq_keys
    {branch : Node.Branch}
    (member : branch ∈ (Plain.tree arrangement flows).branches) :
    ∃ flow ∈ flows, branch.keys = arrangement.wayTo flow := by
  have trail :=
    (Plain.trails_tree arrangement flows).mem_iff.1
      (List.mem_map_of_mem member)
  obtain ⟨flow, isFlow, same⟩ := List.mem_map.1 trail
  obtain ⟨sameGroups, sameLast⟩ := Prod.mk.inj same
  refine ⟨flow, isFlow, ?_⟩
  unfold Node.Branch.keys wayTo groupKeys
  rw [sameGroups, ← sameLast, List.map_map]
  rfl

/-- Nodes differ in their keys where flows keep apart. -/
theorem KeysApart.nodup_keys
    (apart : arrangement.KeysApart flows)
    (ids : (flows.map Flow.id).Nodup) :
    ((Plain.tree arrangement flows).nodes.map Node.key).Nodup := by
  apply Node.nodup_keys_nodesOfAll
  · exact (Plain.properSiblings_tree arrangement ids).imp
      fun _ proper => proper.keys_nodup
  · intro first isFirst second isSecond
    obtain ⟨firstFlow, isFirstFlow, firstKeys⟩ :=
      exists_wayTo_eq_keys isFirst
    obtain ⟨secondFlow, isSecondFlow, secondKeys⟩ :=
      exists_wayTo_eq_keys isSecond
    rw [firstKeys, secondKeys]
    exact apart.forks ids isFirstFlow isSecondFlow

/-- No group has the face of a leaf. -/
theorem leafNode_face_not_mem (flow other : Flow) :
    (leafNode arrangement.offset flow).face ∉
      arrangement.groupFaces other := by
  unfold groupFaces
  cases arrangement.scope <;>
    simp [leafNode, Node.face, instanceFace, planFace, dayFace]

section Told

variable
  (told :
    ∀ first ∈ (Plain.tree arrangement flows).nodes,
      ∀ second ∈ (Plain.tree arrangement flows).nodes,
        first.key = second.key → first = second)
  {flow other : Flow}
  (isFlow : flow ∈ flows)
  (isOther : other ∈ flows)

include told isFlow isOther

/-- Where nodes with one key are one node, groups with one key look alike. -/
theorem content_eq_of_key_eq
    {face otherFace : String × Node.Content}
    (isFace : face ∈ arrangement.groupFaces flow)
    (isOtherFace : otherFace ∈ arrangement.groupFaces other)
    (sameKey : face.1 = otherFace.1) :
    face.2 = otherFace.2 := by
  obtain ⟨node, isNode, rfl⟩ :=
    exists_node_of_mem_groupFaces isFlow isFace
  obtain ⟨otherNode, isOtherNode, rfl⟩ :=
    exists_node_of_mem_groupFaces isOther isOtherFace
  rw [told node isNode otherNode isOtherNode sameKey]

theorem id_not_mem_groupKeys : flow.id ∉ arrangement.groupKeys other := by
  intro isGroupKey
  obtain ⟨face, isFace, sameKey⟩ := List.mem_map.1 isGroupKey
  obtain ⟨group, isGroup, rfl⟩ :=
    exists_node_of_mem_groupFaces isOther isFace
  rw [told group isGroup _ (leafNode_mem_nodes isFlow) sameKey] at isFace
  exact leafNode_face_not_mem flow other isFace

end Told

/-- Flows keep apart where nodes with one key are one node. -/
theorem keysApart_of_nodes
    (told :
      ∀ first ∈ (Plain.tree arrangement flows).nodes,
        ∀ second ∈ (Plain.tree arrangement flows).nodes,
          first.key = second.key → first = second) :
    arrangement.KeysApart flows := by
  constructor
  · exact fun flow isFlow other isOther =>
      id_not_mem_groupKeys told isFlow isOther
  · intro scope flow isFlow other isOther
    refine ⟨fun sameKey => ?_, fun sameKey => ?_⟩
    · have same :=
        content_eq_of_key_eq told isFlow isOther
          (instanceFace_mem scope flow) (planFace_mem scope other) sameKey
      cases same
    · have same :=
        content_eq_of_key_eq told isFlow isOther
          (instanceFace_mem scope flow) (dayFace_mem scope other) sameKey
      cases same
  · intro scope flow isFlow other isOther sameKey
    have same :=
      content_eq_of_key_eq told isFlow isOther (planFace_mem scope flow)
        (planFace_mem scope other) sameKey
    have samePlan := (Node.Content.planGroup.inj same).1
    refine ⟨?_, samePlan⟩
    unfold planKey at sameKey
    rw [samePlan, String.append_left_inj, String.append_right_inj] at sameKey
    exact sameKey

end Nodes

section Identification

variable {arrangement : Arrangement} {flows : List Flow}

/-- What starts out open are nodes. -/
theorem expandedKeys_subset (arrangement : Arrangement) (roots : List Node) :
    arrangement.expandedKeys roots ⊆
      (Node.nodesOfAll roots).map Node.key := by
  intro key member
  unfold expandedKeys at member
  split at member
  next instanceId _ _ =>
    split at member
    next root isRoot =>
      refine List.map_subset Node.key ?_ (Node.mem_keys_of_mem_expand member)
      rw [Node.nodesOfAll_eq_flatMap roots]
      intro node isNode
      rw [Node.nodesOfAll_eq_flatMap, List.flatMap_singleton] at isNode
      exact List.mem_flatMap.2
        ⟨root, List.mem_of_find?_eq_some isRoot, isNode⟩
    next => cases member
  next => exact Node.mem_keys_of_mem_expand member

/-- A tree whose nodes differ in their keys is told by them. -/
theorem keysIdentify_of_nodup
    (distinct :
      ((Plain.tree arrangement flows).nodes.map Node.key).Nodup) :
    (Plain.tree arrangement flows).KeysIdentify := by
  refine ⟨distinct, ?_, ?_, ?_⟩
  · intro node member
    exact Node.findAmong?_key_of_nodup distinct member
  · intro key member
    exact Node.exists_filter_key_eq_singleton distinct
      (expandedKeys_subset arrangement _ member)
  · intro key member
    apply Node.exists_filter_key_eq_singleton distinct
    obtain ⟨node, isNode, rfl, _⟩ := Tree.mem_openKeys_iff.1 member
    exact List.mem_map_of_mem isNode

theorem keysApart_of_nodup
    (distinct :
      ((Plain.tree arrangement flows).nodes.map Node.key).Nodup) :
    arrangement.KeysApart flows :=
  keysApart_of_nodes fun _ isFirst _ isSecond sameKey =>
    List.inj_on_of_nodup_map distinct isFirst isSecond sameKey

theorem keysApart_of_find?
    (found :
      ∀ node ∈ (Plain.tree arrangement flows).nodes,
        (Plain.tree arrangement flows).find? node.key = some node) :
    arrangement.KeysApart flows := by
  apply keysApart_of_nodes
  intro first isFirst second isSecond sameKey
  have firstFound := found first isFirst
  rw [sameKey, found second isSecond] at firstFound
  exact (Option.some.inj firstFound).symm

/--
The keys of a tree of flows with different ids tell its nodes just if the flows
keep apart, and so does a search for them. Flows that are not called like groups
keep apart whatever their plans are called, unless an instance id has a
separator.
-/
theorem build_keysIdentify_iff
    (arrangement : Arrangement)
    {flows : List Flow}
    (ids : (flows.map Flow.id).Nodup) :
    let tree := arrangement.build flows
    (tree.KeysIdentify ↔ arrangement.KeysApart flows) ∧
      ((tree.nodes.map Node.key).Nodup ↔ arrangement.KeysApart flows) ∧
      ((∀ node ∈ tree.nodes, tree.find? node.key = some node) ↔
        arrangement.KeysApart flows) ∧
      ((∀ flow ∈ flows, separator ∉ flow.instanceId.toList) →
        (∀ flow ∈ flows, ∀ other ∈ flows,
          flow.id ∉ arrangement.groupKeys other) →
        tree.KeysIdentify) := by
  intro tree
  have plain : tree = Plain.tree arrangement flows :=
    build_eq_tree arrangement (Flow.distinct_of_nodup ids)
  rw [plain]
  have identify (apart : arrangement.KeysApart flows) :
      (Plain.tree arrangement flows).KeysIdentify :=
    keysIdentify_of_nodup (apart.nodup_keys ids)
  refine ⟨⟨?_, identify⟩, ⟨keysApart_of_nodup, ?_⟩,
    ⟨keysApart_of_find?, ?_⟩, ?_⟩
  · exact fun told => keysApart_of_nodup told.nodup
  · exact fun apart => (identify apart).nodup
  · exact fun apart => (identify apart).find?_key
  · exact fun clean notGroup =>
      identify (keysApart_of_not_mem clean notGroup)

/-- The runs around a leap second can be told by their keys. -/
theorem build_keysIdentify_aroundLeap :
    let arrangement : Arrangement := ⟨.repository, 1, .none⟩
    (Flow.aroundLeap.map Flow.id).Nodup ∧
      (arrangement.build Flow.aroundLeap).KeysIdentify ∧
      arrangement.KeysApart Flow.aroundLeap := by
  intro arrangement
  have ids : (Flow.aroundLeap.map Flow.id).Nodup := by decide
  obtain ⟨identify, _, _, clean⟩ := build_keysIdentify_iff arrangement ids
  have told : (arrangement.build Flow.aroundLeap).KeysIdentify := by
    apply clean
    · unfold separator
      decide
    · decide +kernel
  exact ⟨ids, told, identify.1 told⟩

end Identification

section Clashes

/-- Flows with ids of their own that make nodes with one key. -/
structure Clash (arrangement : Arrangement) (flows : List Flow) : Prop where
  ids : (flows.map Flow.id).Nodup
  named : ∀ flow ∈ flows, flow.id ≠ ""
  not_nodup : ¬ ((arrangement.build flows).nodes.map Node.key).Nodup
  not_found :
    ¬ ∀ node ∈ (arrangement.build flows).nodes,
      (arrangement.build flows).find? node.key = some node

theorem clash_of_not_keysApart
    {arrangement : Arrangement}
    {flows : List Flow}
    (ids : (flows.map Flow.id).Nodup)
    (named : ∀ flow ∈ flows, flow.id ≠ "")
    (notApart : ¬ arrangement.KeysApart flows) :
    arrangement.Clash flows := by
  have plain := build_eq_tree arrangement (Flow.distinct_of_nodup ids)
  refine ⟨ids, named, ?_, ?_⟩
  · rw [plain]
    exact fun distinct => notApart (keysApart_of_nodup distinct)
  · rw [plain]
    exact fun found => notApart (keysApart_of_find? found)

/-- A run called like the day that it is on. -/
def dayClash : List Flow :=
  [.run "2017-01-01" "home" "daily" Flow.newYearRun.time]

/-- A run called like its instance. -/
def instanceClash : List Flow :=
  [.run "ihome" "home" "daily" Flow.newYearRun.time]

/-- Runs of two plans that are called like one another. -/
def planClash : List Flow :=
  [.run "first" "west\x01home" "daily" Flow.newYearRun.time,
    .run "second" "home" "daily\x01west" Flow.newYearRun.time]

/-- Different ids that are not empty do not keep the keys of a view apart, be it
the view of a plan or that of a repository. -/
theorem keys_clash :
    (⟨.plan, 0, .none⟩ : Arrangement).Clash dayClash ∧
      (⟨.repository, 0, .none⟩ : Arrangement).Clash instanceClash ∧
      (⟨.repository, 0, .none⟩ : Arrangement).Clash planClash := by
  refine ⟨?_, ?_, ?_⟩
  · refine clash_of_not_keysApart (by decide) (by decide) fun apart => ?_
    exact absurd apart.id_not_mem (by decide +kernel)
  · refine clash_of_not_keysApart (by decide) (by decide) fun apart => ?_
    exact absurd apart.id_not_mem (by decide +kernel)
  · refine clash_of_not_keysApart (by decide) (by decide) fun apart => ?_
    exact absurd (apart.plan_eq rfl) (by decide +kernel)

end Clashes

end Arrangement

end BackupHistory
