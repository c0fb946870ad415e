import BackupHistory.Proofs.Lookup
import BackupHistory.Proofs.Table
import BackupHistory.Proofs.Tree.Expansion
import Mathlib.Data.List.Flatten

namespace BackupHistory

/-!
# All nodes of a tree

A tree is searched, opened and drawn by the keys of its nodes, as if these were
all different. They are if branches share keys only as far as they share their
nodes, and then a key finds the node that has it.
-/

namespace Node

mutual

/-- A node and the nodes below it, depth first. -/
def nodes : Node → List Node
  | ⟨key, content, children⟩ =>
      ⟨key, content, children⟩ :: nodesOfAll children

/-- Nodes and the nodes below them, depth first. -/
def nodesOfAll : List Node → List Node
  | [] => []
  | node :: rest => nodes node ++ nodesOfAll rest

end

theorem nodes_eq_cons (node : Node) :
    node.nodes = node :: nodesOfAll node.children := by
  obtain ⟨key, content, children⟩ := node
  rw [nodes]

theorem nodesOfAll_eq_flatMap (nodes : List Node) :
    nodesOfAll nodes = nodes.flatMap Node.nodes := by
  induction nodes with
  | nil => rfl
  | cons node rest inductionHypothesis =>
      rw [nodesOfAll, inductionHypothesis, List.flatMap_cons]

theorem mem_nodesOfAll_of_mem {nodes : List Node} {node : Node}
    (member : node ∈ nodes) :
    node ∈ nodesOfAll nodes := by
  rw [nodesOfAll_eq_flatMap, List.mem_flatMap]
  refine ⟨node, member, ?_⟩
  rw [nodes_eq_cons]
  exact List.mem_cons_self

section Search

mutual

theorem find?_eq_find? (key : String) (node : Node) :
    node.find? key = node.nodes.find? fun other => other.key = key := by
  obtain ⟨ownKey, content, children⟩ := node
  rw [Node.find?, nodes, List.find?_cons]
  by_cases same : ownKey = key
  · simp [same]
  · simp only [same, ↓reduceIte, decide_false]
    exact findAmong?_eq_find? key children

/-- A search finds the first of all nodes that has the key. -/
theorem findAmong?_eq_find? (key : String) (nodes : List Node) :
    findAmong? key nodes =
      (nodesOfAll nodes).find? fun other => other.key = key := by
  cases nodes with
  | nil => rfl
  | cons node rest =>
      rw [findAmong?, nodesOfAll, List.find?_append,
        find?_eq_find? key node, findAmong?_eq_find? key rest]

end

end Search

section Below

mutual

theorem nodes_subset_of_mem_nodes (node : Node) {other : Node}
    (member : other ∈ node.nodes) :
    other.nodes ⊆ node.nodes := by
  obtain ⟨key, content, children⟩ := node
  simp only [nodes, List.mem_cons] at member
  rcases member with rfl | below
  · exact List.Subset.refl _
  · rw [nodes]
    exact List.subset_cons_of_subset _
      (nodes_subset_of_mem_nodesOfAll children below)

/-- What is below a node that is below others is below these as well. -/
theorem nodes_subset_of_mem_nodesOfAll (nodes : List Node) {other : Node}
    (member : other ∈ nodesOfAll nodes) :
    other.nodes ⊆ nodesOfAll nodes := by
  cases nodes with
  | nil => cases member
  | cons node rest =>
      rw [nodesOfAll, List.mem_append] at member
      rw [nodesOfAll]
      rcases member with inFirst | inRest
      · exact List.subset_append_of_subset_left _
          (nodes_subset_of_mem_nodes node inFirst)
      · exact List.subset_append_of_subset_right _
          (nodes_subset_of_mem_nodesOfAll rest inRest)

end

end Below

section Opened

/-- A node that is wanted or has a wanted one below it. -/
def IsOnWay (wanted : List String) (node : Node) : Prop :=
  ∃ other ∈ node.nodes, other.key ∈ wanted

variable {wanted : List String}

theorem isOnWay_iff {node : Node} :
    node.IsOnWay wanted ↔
      node.key ∈ wanted ∨ ∃ child ∈ node.children, child.IsOnWay wanted := by
  unfold IsOnWay
  simp only [nodes_eq_cons node, List.mem_cons, nodesOfAll_eq_flatMap,
    List.mem_flatMap, or_and_right, exists_or, exists_eq_left]
  refine or_congr_right ⟨?_, ?_⟩
  · rintro ⟨other, ⟨child, isChild, below⟩, isWanted⟩
    exact ⟨child, isChild, other, below, isWanted⟩
  · rintro ⟨child, isChild, other, below, isWanted⟩
    exact ⟨other, ⟨child, isChild, below⟩, isWanted⟩

/-- Whoever has a node on the way below it is on the way. -/
theorem IsOnWay.of_mem_nodes {node other : Node}
    (onWay : other.IsOnWay wanted)
    (member : other ∈ node.nodes) :
    node.IsOnWay wanted := by
  obtain ⟨last, below, isWanted⟩ := onWay
  exact ⟨last, nodes_subset_of_mem_nodes node member below, isWanted⟩

mutual

theorem pathKeys_ne_nil_iff (node : Node) :
    node.pathKeys wanted ≠ [] ↔ node.IsOnWay wanted := by
  obtain ⟨key, content, children⟩ := node
  have below := pathKeysOfAll_ne_nil_iff children
  rw [isOnWay_iff, ← below, pathKeys]
  by_cases isWanted : key ∈ wanted
  · simp [isWanted]
  · simp [isWanted]

/-- Keys are listed below a node only if the node is on the way. -/
theorem pathKeysOfAll_ne_nil_iff (nodes : List Node) :
    pathKeysOfAll wanted nodes ≠ [] ↔
      ∃ node ∈ nodes, node.IsOnWay wanted := by
  cases nodes with
  | nil => simp [pathKeysOfAll]
  | cons node rest =>
      have first := pathKeys_ne_nil_iff node
      have later := pathKeysOfAll_ne_nil_iff rest
      rw [pathKeysOfAll, List.exists_mem_cons_iff, ← first, ← later]
      simp [imp_iff_not_or]

end

theorem pathKeys_of_isOnWay {node : Node}
    (onWay : node.IsOnWay wanted) :
    node.pathKeys wanted =
      node.key :: pathKeysOfAll wanted node.children := by
  obtain ⟨key, content, children⟩ := node
  have listed := (pathKeys_ne_nil_iff _).2 onWay
  rw [pathKeys] at listed ⊢
  split
  next => rfl
  next offWay => exact absurd (if_neg offWay) listed

mutual

theorem mem_pathKeys_iff (wantedKey : String) (node : Node) :
    wantedKey ∈ node.pathKeys wanted ↔
      ∃ other ∈ node.nodes,
        other.key = wantedKey ∧ other.IsOnWay wanted := by
  obtain ⟨key, content, children⟩ := node
  have below := mem_pathKeysOfAll_iff wantedKey children
  by_cases onWay : IsOnWay wanted ⟨key, content, children⟩
  · rw [pathKeys_of_isOnWay onWay, nodes, List.mem_cons, below]
    simp only [List.mem_cons, or_and_right, exists_or, exists_eq_left,
      onWay, and_true, eq_comm]
  · have noKeys := not_not.1 (mt (pathKeys_ne_nil_iff _).1 onWay)
    rw [noKeys]
    refine ⟨fun member => absurd member List.not_mem_nil, ?_⟩
    rintro ⟨other, member, _, otherOnWay⟩
    exact absurd (otherOnWay.of_mem_nodes member) onWay

/-- The keys on the way are those of the nodes on the way. -/
theorem mem_pathKeysOfAll_iff (wantedKey : String) (nodes : List Node) :
    wantedKey ∈ pathKeysOfAll wanted nodes ↔
      ∃ other ∈ nodesOfAll nodes,
        other.key = wantedKey ∧ other.IsOnWay wanted := by
  cases nodes with
  | nil => simp [pathKeysOfAll, nodesOfAll]
  | cons node rest =>
      have first := mem_pathKeys_iff wantedKey node
      have later := mem_pathKeysOfAll_iff wantedKey rest
      simp only [pathKeysOfAll, nodesOfAll, List.mem_append, first, later,
        or_and_right, exists_or]

end

/-- A list of siblings in or below nodes holds some of all nodes. -/
theorem nodesOfAll_subset_of_mem_siblingLists
    {depth : Nat}
    {nodes siblings : List Node}
    (member : siblings ∈ siblingLists depth nodes) :
    nodesOfAll siblings ⊆ nodesOfAll nodes := by
  induction depth generalizing nodes with
  | zero =>
      rw [List.mem_singleton.1 member]
      exact List.Subset.refl _
  | succ depth inductionHypothesis =>
      obtain ⟨node, isNode, below⟩ := List.mem_flatMap.1 member
      refine List.Subset.trans (inductionHypothesis below) ?_
      intro other isBelow
      rw [nodesOfAll_eq_flatMap, List.mem_flatMap]
      refine ⟨node, isNode, ?_⟩
      rw [nodes_eq_cons]
      exact List.mem_cons_of_mem node isBelow

theorem atDepth_subset (depth : Nat) (nodes : List Node) :
    atDepth depth nodes ⊆ nodesOfAll nodes := by
  intro node member
  obtain ⟨siblings, isList, isSibling⟩ := List.mem_flatten.1 member
  exact nodesOfAll_subset_of_mem_siblingLists isList
    (mem_nodesOfAll_of_mem isSibling)

/-- A policy opens nothing but nodes. -/
theorem mem_keys_of_mem_expand
    {policy : ExpansionPolicy}
    {nodes : List Node}
    {key : String}
    (member : key ∈ policy.expand nodes) :
    key ∈ (nodesOfAll nodes).map Node.key := by
  rw [policy.expand_eq_flatMap_share, List.mem_flatMap] at member
  obtain ⟨siblings, isList, shared⟩ := member
  obtain ⟨node, isTarget, rfl⟩ :=
    List.mem_map.1 (List.mem_of_mem_take shared)
  exact List.mem_map_of_mem
    (nodesOfAll_subset_of_mem_siblingLists isList
      (atDepth_subset _ siblings isTarget))

end Opened

/-- The keys of the nodes on a branch, from the top. -/
def Branch.keys (branch : Branch) : List String :=
  branch.groups.map key ++ [branch.last.key]

/--
Ways down that share keys only as far as they go together: where they part they
have nothing more in common.
-/
def Forks : List String → List String → Prop
  | left :: leftRest, right :: rightRest =>
      (left = right ∧ left ∉ leftRest ∧ right ∉ rightRest ∧
          Forks leftRest rightRest) ∨
        List.Disjoint (left :: leftRest) (right :: rightRest)
  | _, _ => True

section Keys

mutual

theorem exists_branch_of_mem_nodes (node : Node) {key : String}
    (member : key ∈ node.nodes.map Node.key) :
    ∃ branch ∈ node.branches, key ∈ branch.keys := by
  obtain ⟨ownKey, content, children⟩ := node
  rw [nodes, List.map_cons, List.mem_cons] at member
  cases children with
  | nil =>
      refine ⟨_, List.mem_cons_self, ?_⟩
      rcases member with rfl | below
      · exact List.mem_cons_self
      · cases below
  | cons first rest =>
      have isFirst :
          first.key ∈ (nodesOfAll (first :: rest)).map Node.key :=
        List.mem_map_of_mem (mem_nodesOfAll_of_mem List.mem_cons_self)
      rcases member with rfl | below
      · obtain ⟨branch, isBranch, _⟩ :=
          exists_branch_of_mem_nodesOfAll (first :: rest) isFirst
        exact ⟨_, List.mem_map_of_mem isBranch, List.mem_cons_self⟩
      · obtain ⟨branch, isBranch, passed⟩ :=
          exists_branch_of_mem_nodesOfAll (first :: rest) below
        exact ⟨_, List.mem_map_of_mem isBranch,
          List.mem_cons_of_mem ownKey passed⟩

/-- There is a branch through every node. -/
theorem exists_branch_of_mem_nodesOfAll (nodes : List Node) {key : String}
    (member : key ∈ (nodesOfAll nodes).map Node.key) :
    ∃ branch ∈ branchesOfAll nodes, key ∈ branch.keys := by
  cases nodes with
  | nil => cases member
  | cons node rest =>
      rw [nodesOfAll, List.map_append, List.mem_append] at member
      rw [branchesOfAll]
      rcases member with inFirst | inRest
      · obtain ⟨branch, isBranch, passed⟩ :=
          exists_branch_of_mem_nodes node inFirst
        exact ⟨branch, List.mem_append_left _ isBranch, passed⟩
      · obtain ⟨branch, isBranch, passed⟩ :=
          exists_branch_of_mem_nodesOfAll rest inRest
        exact ⟨branch, List.mem_append_right _ isBranch, passed⟩

end

/-- The nodes on a branch are nodes of the tree. -/
theorem mem_nodesOfAll_of_mem_branchesOfAll
    {nodes : List Node}
    {branch : Branch}
    (member : branch ∈ branchesOfAll nodes)
    {node : Node}
    (passed : node ∈ branch.groups ∨ node = branch.last) :
    node ∈ nodesOfAll nodes := by
  obtain ⟨groups, last⟩ := branch
  induction groups generalizing nodes with
  | nil =>
      obtain rfl := passed.resolve_left List.not_mem_nil
      rcases mem_branchesOfAll member with
        ⟨_, isNode, _, ⟨⟩⟩ | ⟨_, _, _, _, ⟨⟩⟩
      exact mem_nodesOfAll_of_mem isNode
  | cons group groups inductionHypothesis =>
      rcases mem_branchesOfAll member with
        ⟨_, _, _, ⟨⟩⟩ | ⟨_, isGroup, rest, isRest, ⟨⟩⟩
      rw [List.mem_cons, or_assoc] at passed
      rcases passed with rfl | below
      · exact mem_nodesOfAll_of_mem isGroup
      · rw [nodesOfAll_eq_flatMap, List.mem_flatMap]
        refine ⟨group, isGroup, ?_⟩
        rw [nodes_eq_cons]
        exact List.mem_cons_of_mem group (inductionHypothesis isRest below)

/-- A branch of a node starts with its key. -/
theorem keys_of_mem_branches {node : Node} {branch : Branch}
    (member : branch ∈ node.branches) :
    ∃ rest, branch.keys = node.key :: rest := by
  by_cases childless : node.children = []
  · rw [branches_of_children_eq_nil childless,
      List.mem_singleton] at member
    exact ⟨[], member ▸ rfl⟩
  · rw [branches_of_children_ne_nil childless] at member
    obtain ⟨below, _, rfl⟩ := List.mem_map.1 member
    exact ⟨below.keys, rfl⟩

/-- Ways down that start together go on apart from where they started. -/
theorem Forks.of_cons {key : String} {left right : List String}
    (forks : Forks (key :: left) (key :: right)) :
    key ∉ left ∧ Forks left right := by
  rcases forks with ⟨_, fresh, _, rest⟩ | apart
  · exact ⟨fresh, rest⟩
  · exact (apart List.mem_cons_self List.mem_cons_self).elim

/-- Ways down that start apart stay apart. -/
theorem Forks.disjoint {first second : String} {left right : List String}
    (forks : Forks (first :: left) (second :: right))
    (differ : first ≠ second) :
    List.Disjoint (first :: left) (second :: right) :=
  forks.resolve_left fun together => differ together.1

theorem forks_singleton (left right : String) : Forks [left] [right] := by
  by_cases same : left = right
  · exact .inl ⟨same, List.not_mem_nil, List.not_mem_nil, trivial⟩
  · exact .inr (by simpa using Ne.symm same)

/-- Ways down go on to fork below keys of their own that the next keys tell. -/
theorem Forks.under
    {left right first second : String}
    {leftRest rightRest : List String}
    (forks : Forks (first :: leftRest) (second :: rightRest))
    (told : first = second → left = right)
    (leftFresh : left ∉ first :: leftRest ∧ left ∉ second :: rightRest)
    (rightFresh : right ∉ first :: leftRest ∧ right ∉ second :: rightRest) :
    Forks (left :: first :: leftRest) (right :: second :: rightRest) := by
  by_cases same : left = right
  · exact .inl ⟨same, leftFresh.1, rightFresh.2, forks⟩
  · have below := forks.disjoint fun next => same (told next)
    refine .inr ?_
    rw [List.disjoint_cons_left, List.disjoint_cons_right]
    refine ⟨?_, rightFresh.1, below⟩
    rw [List.mem_cons, not_or]
    exact ⟨same, leftFresh.2⟩

mutual

theorem nodup_keys_nodes
    (node : Node)
    (differ :
      Everywhere (fun siblings => (siblings.map key).Nodup) node.children)
    (forks :
      ∀ first ∈ node.branches, ∀ second ∈ node.branches,
        Forks first.keys second.keys) :
    (node.nodes.map key).Nodup := by
  obtain ⟨ownKey, content, children⟩ := node
  rw [nodes, List.map_cons]
  cases children with
  | nil => exact List.nodup_singleton ownKey
  | cons first rest =>
      have below :
          ∀ left ∈ branchesOfAll (first :: rest),
            ∀ right ∈ branchesOfAll (first :: rest),
              ownKey ∉ left.keys ∧ Forks left.keys right.keys := by
        intro left isLeft right isRight
        exact
          (forks _ (List.mem_map_of_mem isLeft) _
            (List.mem_map_of_mem isRight)).of_cons
      refine List.nodup_cons.2 ⟨?_, ?_⟩
      · intro again
        obtain ⟨branch, isBranch, passed⟩ :=
          exists_branch_of_mem_nodesOfAll (first :: rest) again
        exact (below branch isBranch branch isBranch).1 passed
      · exact nodup_keys_nodesOfAll (first :: rest) differ
          fun left isLeft right isRight =>
            (below left isLeft right isRight).2

/-- Nodes differ in their keys if siblings do and branches share keys only as
far as they go together. -/
theorem nodup_keys_nodesOfAll
    (nodes : List Node)
    (differ :
      Everywhere (fun siblings => (siblings.map key).Nodup) nodes)
    (forks :
      ∀ first ∈ branchesOfAll nodes, ∀ second ∈ branchesOfAll nodes,
        Forks first.keys second.keys) :
    ((nodesOfAll nodes).map key).Nodup := by
  cases nodes with
  | nil => exact List.nodup_nil
  | cons node rest =>
      obtain ⟨here, below⟩ := everywhere_iff.1 differ
      obtain ⟨notAmongRest, restDiffer⟩ := List.nodup_cons.1 here
      rw [branchesOfAll] at forks
      rw [nodesOfAll, List.map_append, List.nodup_append]
      refine ⟨?_, ?_, ?_⟩
      · exact nodup_keys_nodes node (below node List.mem_cons_self)
          fun first isFirst second isSecond =>
            forks first (List.mem_append_left _ isFirst) second
              (List.mem_append_left _ isSecond)
      · refine nodup_keys_nodesOfAll rest
          (everywhere_iff.2 ⟨restDiffer, fun other isOther =>
            below other (List.mem_cons_of_mem node isOther)⟩)
          fun first isFirst second isSecond =>
            forks first (List.mem_append_right _ isFirst) second
              (List.mem_append_right _ isSecond)
      · rintro key inFirst _ inRest rfl
        obtain ⟨first, isFirst, firstPassed⟩ :=
          exists_branch_of_mem_nodes node inFirst
        obtain ⟨second, isSecond, secondPassed⟩ :=
          exists_branch_of_mem_nodesOfAll rest inRest
        have forked :=
          forks first (List.mem_append_left _ isFirst) second
            (List.mem_append_right _ isSecond)
        obtain ⟨firstRest, firstKeys⟩ := keys_of_mem_branches isFirst
        rw [branchesOfAll_eq_flatMap, List.mem_flatMap] at isSecond
        obtain ⟨other, isOther, isSecond⟩ := isSecond
        obtain ⟨secondRest, secondKeys⟩ := keys_of_mem_branches isSecond
        have apart : node.key ≠ other.key := fun same =>
          notAmongRest (same ▸ List.mem_map_of_mem isOther)
        rw [firstKeys] at firstPassed forked
        rw [secondKeys] at secondPassed forked
        exact forked.disjoint apart firstPassed secondPassed

end

/-- Where nodes differ in their keys, a search finds the node with a key. -/
theorem findAmong?_key_of_nodup
    {nodes : List Node}
    (distinct : ((nodesOfAll nodes).map key).Nodup)
    {node : Node}
    (member : node ∈ nodesOfAll nodes) :
    findAmong? node.key nodes = some node := by
  rw [findAmong?_eq_find?]
  exact find?_key_eq_some distinct member

/-- Where nodes differ in their keys, each key is that of one node. -/
theorem exists_filter_key_eq_singleton
    {nodes : List Node}
    (distinct : ((nodesOfAll nodes).map key).Nodup)
    {wanted : String}
    (member : wanted ∈ (nodesOfAll nodes).map key) :
    ∃ node,
      ((nodesOfAll nodes).filter fun other => other.key = wanted) =
        [node] := by
  obtain ⟨node, isNode, rfl⟩ := List.mem_map.1 member
  exact ⟨node, filter_key_eq_singleton distinct isNode⟩

end Keys

end Node

/-- The open keys are those of the nodes on the way to an expanded one. -/
theorem Tree.mem_openKeys_iff {tree : Tree} {key : String} :
    key ∈ tree.openKeys.keys ↔
      ∃ node ∈ Node.nodesOfAll tree.roots,
        node.key = key ∧ node.IsOnWay tree.expanded := by
  unfold openKeys
  rw [Table.mem_keys_ofList, ← Node.mem_pathKeysOfAll_iff]
  simp

end BackupHistory
