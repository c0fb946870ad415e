import BackupHistory.Proofs.Flow
import BackupHistory.Proofs.Tree.LeafMemo
import BackupHistory.Tree.Arrangement
import Mathlib.Data.List.Induction

namespace BackupHistory.Arrangement

/-!
# Trees without a memo

The same tree, built by plain functions that create every leaf. A memo of known
leaves gives just this tree, so whatever is proved about plain trees holds of
all trees that are built.
-/

theorem get?_groups
    (key : Flow → String)
    (flows : List Flow)
    (name : String) :
    (flows.foldl
        (fun (groups : Table String (List Flow)) flow =>
          groups.insert (key flow)
            ((groups.get? (key flow)).getD [] ++ [flow]))
        .empty).get? name =
      (some (flows.filter fun flow => key flow = name)).filter
        fun members => !members.isEmpty := by
  have members_getD (members : List Flow) :
      ((some members).filter fun members => !members.isEmpty).getD [] =
        members := by
    cases members <;> simp [Option.filter]
  induction flows using List.reverseRecOn with
  | nil => rfl
  | append_singleton earlier flow inductionHypothesis =>
      simp only [List.foldl_append, List.foldl_cons, List.foldl_nil,
        Table.get?_insert, List.filter_append]
      by_cases same : name = key flow
      · subst same
        rw [inductionHypothesis, members_getD]
        simp [Option.filter]
      · have other : ¬ key flow = name := fun equal => same equal.symm
        simp [same, inductionHypothesis, other]

/-- The groups of flows are the flows of each key that there is. -/
theorem mem_groupBy_iff
    (key : Flow → String)
    (flows : List Flow)
    (name : String)
    (members : List Flow) :
    (name, members) ∈ groupBy key flows ↔
      members = flows.filter (fun flow => key flow = name) ∧
        members ≠ [] := by
  unfold groupBy
  rw [Table.mem_entries_iff, get?_groups, Option.filter_eq_some_iff,
    Option.some.injEq, Bool.not_eq_true', List.isEmpty_eq_false_iff,
    eq_comm]

/-- Groups stand in the order of their names. -/
theorem groupBy_ordered (key : Flow → String) (flows : List Flow) :
    (groupBy key flows).Pairwise fun left right =>
      compare left.1 right.1 = .lt := by
  unfold groupBy
  exact Table.ordered _

theorem mem_of_mem_groupBy
    {key : Flow → String}
    {flows members : List Flow}
    {name : String}
    {flow : Flow}
    (group : (name, members) ∈ groupBy key flows)
    (member : flow ∈ members) :
    flow ∈ flows := by
  rw [((mem_groupBy_iff ..).1 group).1] at member
  exact (List.mem_filter.1 member).1

namespace Plain

/-- The leaves of flows. -/
def leaves (offset : Int) (flows : List Flow) : List Node :=
  (latestFirst flows).map (leafNode offset)

/-- The title of a day that flows fall on. -/
def dayTitle (offset : Int) (day : String) : List Flow → String
  | [] => day
  | flow :: _ => flow.time.weekdayText offset

/-- The node of a day. -/
def dayNode
    (offset : Int)
    (keyStart day : String)
    (flows : List Flow) :
    Node where
  key := keyStart ++ day
  content := .dayGroup day ⟨dayTitle offset day flows, none⟩
  children := leaves offset flows

/-- The nodes of the days of flows. -/
def dayNodes (offset : Int) (keyStart : String) (flows : List Flow) :
    List Node :=
  byKeyDescending <|
    (groupBy (fun flow => flow.time.dayText offset) flows).map
      fun (day, members) => dayNode offset keyStart day members

/-- The node of a plan of an instance. -/
def planNode
    (offset : Int)
    (instanceId planId : String)
    (flows : List Flow) :
    Node where
  key := planKey instanceId planId
  content := .planGroup planId ⟨planId, planHelp planId⟩
  children := dayNodes offset (planKey instanceId planId) flows

/-- The nodes of the plans of an instance. -/
def planNodes (offset : Int) (instanceId : String) (flows : List Flow) :
    List Node :=
  byKeyDescending <|
    (groupBy Flow.planId flows).map
      fun (planId, members) => planNode offset instanceId planId members

/-- The node of an instance. -/
def instanceNode
    (offset : Int)
    (instanceId : String)
    (flows : List Flow) :
    Node where
  key := "i" ++ instanceId
  content := .instanceGroup instanceId ⟨instanceId, instanceHelp instanceId⟩
  children := planNodes offset instanceId flows

/-- The nodes of the instances of flows. -/
def instanceNodes (offset : Int) (flows : List Flow) : List Node :=
  byKeyDescending <|
    (groupBy Flow.instanceId flows).map
      fun (instanceId, members) => instanceNode offset instanceId members

/-- The roots of a view. -/
def roots (arrangement : Arrangement) (flows : List Flow) : List Node :=
  match arrangement.scope with
  | .plan => dayNodes arrangement.offset "" flows
  | .repository => instanceNodes arrangement.offset flows

/-- The tree of flows. -/
def tree (arrangement : Arrangement) (flows : List Flow) : Tree where
  scope := arrangement.scope
  roots := roots arrangement flows
  expanded := arrangement.expandedKeys (roots arrangement flows)

end Plain

section Computing

variable {known : LeafMemo.Knowledge} {offset : Int} {flows : List Flow}

theorem computes_leaves
    (fits : known.Fits (leafNode offset) flows) :
    LeafMemo.Computes known (leaves offset flows)
      (Plain.leaves offset flows) := by
  apply LeafMemo.computes_mapM
  intro flow member
  exact LeafMemo.computes_leaf fits (List.mem_mergeSort.1 member)

theorem computes_dayNode
    (fits : known.Fits (leafNode offset) flows)
    (keyStart day : String) :
    LeafMemo.Computes known (dayNode offset keyStart day flows)
      (Plain.dayNode offset keyStart day flows) := by
  cases flows with
  | nil => exact (computes_leaves fits).bind (LeafMemo.computes_pure _)
  | cons first rest =>
      exact (computes_leaves fits).bind (LeafMemo.computes_pure _)

/-- The groups of flows are built by what builds each of them. -/
theorem computes_groups
    (fits : known.Fits (leafNode offset) flows)
    (key : Flow → String)
    {build : String → List Flow → StateM LeafMemo Node}
    {plain : String → List Flow → Node}
    (each :
      ∀ name members,
        known.Fits (leafNode offset) members →
        LeafMemo.Computes known (build name members)
          (plain name members)) :
    LeafMemo.Computes known
      (byKeyDescending <$>
        (groupBy key flows).mapM
          fun (name, members) => build name members)
      (byKeyDescending <|
        (groupBy key flows).map
          fun (name, members) => plain name members) := by
  refine LeafMemo.Computes.map (LeafMemo.computes_mapM ?_) byKeyDescending
  rintro ⟨name, members⟩ group
  apply each
  exact fits.subset fun flow member => mem_of_mem_groupBy group member

theorem computes_dayNodes
    (fits : known.Fits (leafNode offset) flows)
    (keyStart : String) :
    LeafMemo.Computes known (dayNodes offset keyStart flows)
      (Plain.dayNodes offset keyStart flows) :=
  computes_groups fits _ fun day _ memberFits =>
    computes_dayNode memberFits keyStart day

theorem computes_planNode
    (fits : known.Fits (leafNode offset) flows)
    (instanceId planId : String) :
    LeafMemo.Computes known (planNode offset instanceId planId flows)
      (Plain.planNode offset instanceId planId flows) :=
  (computes_dayNodes fits _).bind (LeafMemo.computes_pure _)

theorem computes_planNodes
    (fits : known.Fits (leafNode offset) flows)
    (instanceId : String) :
    LeafMemo.Computes known (planNodes offset instanceId flows)
      (Plain.planNodes offset instanceId flows) :=
  computes_groups fits _ fun planId _ memberFits =>
    computes_planNode memberFits instanceId planId

theorem computes_instanceNode
    (fits : known.Fits (leafNode offset) flows)
    (instanceId : String) :
    LeafMemo.Computes known (instanceNode offset instanceId flows)
      (Plain.instanceNode offset instanceId flows) :=
  (computes_planNodes fits instanceId).bind (LeafMemo.computes_pure _)

theorem computes_instanceNodes
    (fits : known.Fits (leafNode offset) flows) :
    LeafMemo.Computes known (instanceNodes offset flows)
      (Plain.instanceNodes offset flows) :=
  computes_groups fits _ fun instanceId _ memberFits =>
    computes_instanceNode memberFits instanceId

theorem computes_roots
    (arrangement : Arrangement)
    (fits : known.Fits (leafNode arrangement.offset) flows) :
    LeafMemo.Computes known (arrangement.roots flows)
      (Plain.roots arrangement flows) := by
  unfold roots Plain.roots
  cases arrangement.scope with
  | plan => exact computes_dayNodes fits ""
  | repository => exact computes_instanceNodes fits

/-- A memo of known leaves gives the tree that is built without one. -/
theorem buildWith_eq_tree
    (arrangement : Arrangement)
    (fits : known.Fits (leafNode arrangement.offset) flows)
    {memo : LeafMemo}
    (holds : memo.Holds known) :
    ∃ after,
      arrangement.buildWith flows memo =
          (Plain.tree arrangement flows, after) ∧
        after.Holds known := by
  obtain ⟨after, run, afterHolds⟩ :=
    computes_roots arrangement fits memo.begin
      (LeafMemo.holds_begin holds)
  refine ⟨after.keepOnly flows, ?_,
    LeafMemo.holds_keepOnly afterHolds flows⟩
  unfold buildWith
  rw [run]
  rfl

end Computing

/-- The tree of flows with distinct ids is built by plain functions. -/
theorem build_eq_tree
    (arrangement : Arrangement)
    {flows : List Flow}
    (distinct : Flow.Distinct flows) :
    arrangement.build flows = Plain.tree arrangement flows := by
  let known : LeafMemo.Knowledge := fun flowId _ node =>
    ∀ flow ∈ flows,
      flow.id = flowId → node = leafNode arrangement.offset flow
  have fits : known.Fits (leafNode arrangement.offset) flows := by
    constructor
    · intro flow member other otherMember same
      rw [distinct other otherMember flow member same]
    · intro flow node member isKnown
      exact isKnown flow member rfl
  obtain ⟨after, run, _⟩ :=
    buildWith_eq_tree arrangement fits LeafMemo.holds_empty
  unfold build
  rw [run]

end BackupHistory.Arrangement
