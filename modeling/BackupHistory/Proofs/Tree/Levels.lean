import BackupHistory.Tree.Basic
import Mathlib.Data.List.Nodup

namespace BackupHistory.Node

/-!
# Levels and branches

A tree is read in two ways. Across, it is a list of siblings at each place of
each level, from left to right. Down, it is a branch to each node that has no
children, with the groups that are passed on the way to it.
-/

/-- The lists of siblings that stand at a depth below nodes, in their order. -/
def siblingLists : Nat → List Node → List (List Node)
  | 0, nodes => [nodes]
  | depth + 1, nodes =>
      nodes.flatMap fun node => siblingLists depth node.children

/-- The nodes that stand at a depth below nodes, in their order. -/
def atDepth (depth : Nat) (nodes : List Node) : List Node :=
  (siblingLists depth nodes).flatten

/-- All lists of siblings in and below nodes have a property. -/
def Everywhere (holds : List Node → Prop) (nodes : List Node) : Prop :=
  ∀ depth, ∀ siblings ∈ siblingLists depth nodes, holds siblings

section Across

@[simp] theorem atDepth_zero (nodes : List Node) : atDepth 0 nodes = nodes :=
  List.append_nil nodes

theorem atDepth_succ (depth : Nat) (nodes : List Node) :
    atDepth (depth + 1) nodes =
      nodes.flatMap fun node => atDepth depth node.children := by
  unfold atDepth
  rw [siblingLists, List.flatten_eq_flatMap, List.flatMap_assoc]
  simp only [List.flatMap_id]

@[simp] theorem atDepth_nil (depth : Nat) : atDepth depth [] = [] := by
  cases depth with
  | zero => rfl
  | succ depth => rw [atDepth_succ, List.flatMap_nil]

theorem atDepth_cons (depth : Nat) (node : Node) (rest : List Node) :
    atDepth depth (node :: rest) =
      atDepth depth [node] ++ atDepth depth rest := by
  cases depth with
  | zero => rw [atDepth_zero, atDepth_zero, atDepth_zero, List.singleton_append]
  | succ depth =>
      rw [atDepth_succ, atDepth_succ, atDepth_succ, List.flatMap_cons,
        List.flatMap_singleton]

/-- What holds everywhere holds of the nodes and everywhere below each. -/
theorem everywhere_iff {holds : List Node → Prop} {nodes : List Node} :
    Everywhere holds nodes ↔
      holds nodes ∧ ∀ node ∈ nodes, Everywhere holds node.children := by
  constructor
  · intro everywhere
    refine ⟨everywhere 0 nodes List.mem_cons_self, ?_⟩
    intro node member depth siblings below
    exact everywhere (depth + 1) siblings
      (List.mem_flatMap.2 ⟨node, member, below⟩)
  · rintro ⟨here, below⟩ depth siblings isBelow
    cases depth with
    | zero =>
        obtain rfl := List.mem_singleton.1 isBelow
        exact here
    | succ depth =>
        obtain ⟨node, member, belowNode⟩ := List.mem_flatMap.1 isBelow
        exact below node member depth siblings belowNode

theorem Everywhere.imp {holds other : List Node → Prop} {nodes : List Node}
    (everywhere : Everywhere holds nodes)
    (implies : ∀ siblings, holds siblings → other siblings) :
    Everywhere other nodes :=
  fun depth siblings below =>
    implies siblings (everywhere depth siblings below)

end Across

/-- The way down to a node that has no children. -/
structure Branch where
  /-- The nodes that are passed, from the top. -/
  groups : List Node
  last : Node
  deriving Repr

/-- The branch that starts one node further up. -/
def Branch.under (node : Node) (branch : Branch) : Branch :=
  { branch with groups := node :: branch.groups }

mutual

/-- The branches from a node down, from left to right. -/
def branches : Node → List Branch
  | ⟨key, content, []⟩ => [⟨[], ⟨key, content, []⟩⟩]
  | ⟨key, content, first :: rest⟩ =>
      (branchesOfAll (first :: rest)).map
        (Branch.under ⟨key, content, first :: rest⟩)

/-- The branches from nodes down, from left to right. -/
def branchesOfAll : List Node → List Branch
  | [] => []
  | node :: rest => branches node ++ branchesOfAll rest

end

section Down

theorem branchesOfAll_eq_flatMap (nodes : List Node) :
    branchesOfAll nodes = nodes.flatMap branches := by
  induction nodes with
  | nil => rfl
  | cons node rest inductionHypothesis =>
      rw [branchesOfAll, inductionHypothesis, List.flatMap_cons]

theorem branches_of_children_eq_nil {node : Node}
    (childless : node.children = []) :
    node.branches = [⟨[], node⟩] := by
  obtain ⟨key, content, children⟩ := node
  cases childless
  rfl

theorem branches_of_children_ne_nil {node : Node}
    (inhabited : node.children ≠ []) :
    node.branches = (branchesOfAll node.children).map (Branch.under node) := by
  obtain ⟨key, content, children⟩ := node
  cases children with
  | nil => exact absurd rfl inhabited
  | cons first rest => rfl

theorem flowsOfAll_eq_flatMap (nodes : List Node) :
    flowsOfAll nodes = nodes.flatMap flows := by
  induction nodes with
  | nil => rfl
  | cons node rest inductionHypothesis =>
      rw [flowsOfAll, inductionHypothesis, List.flatMap_cons]

/-- A branch starts at a node, and goes on among its children if it has any. -/
theorem mem_branchesOfAll {nodes : List Node} {branch : Branch}
    (member : branch ∈ branchesOfAll nodes) :
    (∃ node ∈ nodes, node.children = [] ∧ branch = ⟨[], node⟩) ∨
      ∃ node ∈ nodes, ∃ rest ∈ branchesOfAll node.children,
        branch = rest.under node := by
  rw [branchesOfAll_eq_flatMap, List.mem_flatMap] at member
  obtain ⟨node, isNode, isBranch⟩ := member
  by_cases childless : node.children = []
  · rw [branches_of_children_eq_nil childless, List.mem_singleton] at isBranch
    exact .inl ⟨node, isNode, childless, isBranch⟩
  · rw [branches_of_children_ne_nil childless, List.mem_map] at isBranch
    obtain ⟨rest, isRest, rfl⟩ := isBranch
    exact .inr ⟨node, isNode, rest, isRest, rfl⟩

/-- Where siblings differ in their keys, the keys on a branch tell its groups. -/
theorem groups_eq_of_keys {nodes : List Node}
    (differ :
      Everywhere (fun siblings => (siblings.map key).Nodup) nodes)
    {first second : Branch}
    (isFirst : first ∈ branchesOfAll nodes)
    (isSecond : second ∈ branchesOfAll nodes)
    (sameKeys : first.groups.map key = second.groups.map key) :
    first.groups = second.groups := by
  obtain ⟨groups, last⟩ := first
  induction groups generalizing nodes second with
  | nil => exact (List.map_eq_nil_iff.1 sameKeys.symm).symm
  | cons group groups inductionHypothesis =>
      obtain ⟨here, below⟩ := everywhere_iff.1 differ
      rcases mem_branchesOfAll isFirst with
        ⟨_, _, _, ⟨⟩⟩ | ⟨_, isGroup, firstRest, isFirstRest, ⟨⟩⟩
      rcases mem_branchesOfAll isSecond with
        ⟨_, _, _, rfl⟩ | ⟨other, isOther, secondRest, isSecondRest, rfl⟩
      · cases sameKeys
      · obtain ⟨sameKey, sameRest⟩ := List.cons.inj sameKeys
        obtain rfl :=
          List.inj_on_of_nodup_map here isGroup isOther sameKey
        have rest :=
          inductionHypothesis (below group isGroup) isSecondRest
            isFirstRest sameRest
        exact congrArg (group :: ·) rest

end Down

end BackupHistory.Node
