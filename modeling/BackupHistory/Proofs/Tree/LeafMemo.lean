import BackupHistory.Proofs.Table
import BackupHistory.Tree.LeafMemo

namespace BackupHistory.LeafMemo

/-!
# Memos that hold known leaves

What a memo may hold is described by what is known of a flow id, a revision and
a node. As long as only known leaves are held and the known leaf of a flow is
the one that would be created, nobody can tell from a value that a memo was
used: that is `Computes`.
-/

section Lookup

/-- A leaf is found if it is held under the flow's revision. -/
theorem leaf?_eq_some_iff {memo : LeafMemo} {flow : Flow} {node : Node} :
    memo.leaf? flow = some node ↔
      memo.entries.get? flow.id = some (flow.revision, node) := by
  unfold leaf?
  cases memo.entries.get? flow.id with
  | none => simp
  | some entry =>
      obtain ⟨revision, held⟩ := entry
      by_cases current : revision = flow.revision <;> simp [current]

variable {create : Flow → Node} {memo : LeafMemo} {flow : Flow}

theorem run_leaf_of_some {node : Node}
    (held : memo.leaf? flow = some node) :
    (leaf create flow).run memo =
      (node, { memo with hits := memo.hits + 1 }) := by
  simp only [leaf, StateT.run, held]

theorem run_leaf_of_none (notHeld : memo.leaf? flow = none) :
    (leaf create flow).run memo =
      (create flow,
        { memo with
          entries :=
            memo.entries.insert flow.id (flow.revision, create flow)
          misses := memo.misses + 1 }) := by
  simp only [leaf, StateT.run, notHeld]

/-- What is kept is what is held of flows that are in the list. -/
theorem get?_keepOnly
    (memo : LeafMemo)
    (flows : List Flow)
    (flowId : FlowId) :
    (memo.keepOnly flows).entries.get? flowId =
      (memo.entries.get? flowId).filter fun _ =>
        flows.any fun flow => flow.id == flowId :=
  Table.get?_filter
    (fun flowId _ => flows.any fun flow => flow.id == flowId)
    memo.entries flowId

end Lookup

/-- What can be known of the leaf that is remembered at a revision. -/
abbrev Knowledge :=
  FlowId → Nat → Node → Prop

/-- Every leaf that is remembered is a known one. -/
def Holds (known : Knowledge) (memo : LeafMemo) : Prop :=
  ∀ flowId revision node,
    memo.entries.get? flowId = some (revision, node) →
    known flowId revision node

/-- The leaf of a flow that would be created is the only one that is known. -/
structure Knowledge.Fits
    (known : Knowledge)
    (create : Flow → Node)
    (flows : List Flow) : Prop where
  created :
    ∀ {flow}, flow ∈ flows → known flow.id flow.revision (create flow)
  unique :
    ∀ {flow node},
      flow ∈ flows →
      known flow.id flow.revision node →
      node = create flow

theorem Knowledge.Fits.subset
    {known : Knowledge}
    {create : Flow → Node}
    {flows some : List Flow}
    (fits : known.Fits create flows)
    (within : ∀ flow ∈ some, flow ∈ flows) :
    known.Fits create some where
  created member := fits.created (within _ member)
  unique member := fits.unique (within _ member)

/-- An action that has one value whichever known leaves a memo holds. -/
def Computes
    (known : Knowledge)
    (action : StateM LeafMemo α)
    (value : α) : Prop :=
  ∀ memo : LeafMemo,
    memo.Holds known →
    ∃ after, action.run memo = (value, after) ∧ after.Holds known

variable {known : Knowledge}

theorem holds_empty : empty.Holds known := by
  intro flowId revision node found
  cases found

theorem holds_begin {memo : LeafMemo} (holds : memo.Holds known) :
    memo.begin.Holds known :=
  holds

theorem holds_keepOnly
    {memo : LeafMemo}
    (holds : memo.Holds known)
    (flows : List Flow) :
    (memo.keepOnly flows).Holds known := by
  intro flowId revision node found
  rw [get?_keepOnly] at found
  exact holds _ _ _ (Option.filter_eq_some_iff.1 found).1

/-- Less is held where more is known. -/
theorem Holds.imp
    {other : Knowledge}
    {memo : LeafMemo}
    (holds : memo.Holds known)
    (implies :
      ∀ flowId revision node,
        known flowId revision node →
        other flowId revision node) :
    memo.Holds other := by
  intro flowId revision node found
  exact implies flowId revision node (holds _ _ _ found)

/-- Looking a leaf up gives the leaf that would be created. -/
theorem computes_leaf
    {create : Flow → Node}
    {flows : List Flow}
    (fits : known.Fits create flows)
    {flow : Flow}
    (member : flow ∈ flows) :
    Computes known (leaf create flow) (create flow) := by
  intro memo holds
  rcases remembered : memo.leaf? flow with _ | node
  · refine ⟨_, run_leaf_of_none remembered, ?_⟩
    intro flowId revision other found
    rw [Table.get?_insert] at found
    by_cases same : flowId = flow.id
    · rw [if_pos same] at found
      cases found
      rw [same]
      exact fits.created member
    · rw [if_neg same] at found
      exact holds _ _ _ found
  · have isKnown : known flow.id flow.revision node :=
      holds _ _ _ (leaf?_eq_some_iff.1 remembered)
    have right := fits.unique member isKnown
    subst right
    exact ⟨_, run_leaf_of_some remembered, holds⟩

theorem computes_pure (value : α) :
    Computes known (pure value) value := by
  intro memo holds
  exact ⟨memo, rfl, holds⟩

theorem Computes.bind
    {action : StateM LeafMemo α}
    {value : α}
    {next : α → StateM LeafMemo β}
    {result : β}
    (first : Computes known action value)
    (second : Computes known (next value) result) :
    Computes known (action >>= next) result := by
  intro memo holds
  obtain ⟨between, firstRun, betweenHolds⟩ := first memo holds
  obtain ⟨after, secondRun, afterHolds⟩ := second between betweenHolds
  refine ⟨after, ?_, afterHolds⟩
  rw [StateT.run_bind, firstRun]
  exact secondRun

theorem Computes.map
    {action : StateM LeafMemo α}
    {value : α}
    (computes : Computes known action value)
    (function : α → β) :
    Computes known (function <$> action) (function value) := by
  intro memo holds
  obtain ⟨after, run, afterHolds⟩ := computes memo holds
  refine ⟨after, ?_, afterHolds⟩
  rw [StateT.run_map, run]
  rfl

/-- One action after another has the values of all of them. -/
theorem computes_mapM
    {action : α → StateM LeafMemo β}
    {value : α → β}
    {elements : List α}
    (each :
      ∀ element ∈ elements,
        Computes known (action element) (value element)) :
    Computes known (elements.mapM action) (elements.map value) := by
  induction elements with
  | nil => exact computes_pure []
  | cons first rest inductionHypothesis =>
      have head := each first List.mem_cons_self
      have tail :=
        inductionHypothesis fun element member =>
          each element (List.mem_cons_of_mem first member)
      rw [List.mapM_cons]
      exact head.bind (tail.bind (computes_pure _))

end BackupHistory.LeafMemo
