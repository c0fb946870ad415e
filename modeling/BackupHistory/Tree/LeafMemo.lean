import BackupHistory.Tree.Basic

namespace BackupHistory

/-!
# Remembered leaves

A leaf depends only on its flow and on the clock that its title is written by.
It is remembered under the flow's id and used again as long as the flow's
revision is the same. After a tree has been built the leaves of other flows are
forgotten, so a memo holds the leaves of the last tree.
-/

/-- The leaves of the last tree, and how many of them were there before. -/
structure LeafMemo where
  entries : Table FlowId (Nat × Node)
  hits : Nat
  misses : Nat

namespace LeafMemo

def empty : LeafMemo :=
  ⟨.empty, 0, 0⟩

def size (memo : LeafMemo) : Nat :=
  memo.entries.size

def begin (memo : LeafMemo) : LeafMemo :=
  { memo with hits := 0, misses := 0 }

/-- The leaf that is remembered for a flow at its revision. -/
def leaf? (memo : LeafMemo) (flow : Flow) : Option Node :=
  match memo.entries.get? flow.id with
  | some (revision, node) =>
      if revision = flow.revision then
        some node
      else
        none
  | none => none

/-- The leaf of a flow, a remembered one if there is one. -/
def leaf (create : Flow → Node) (flow : Flow) : StateM LeafMemo Node :=
  fun memo =>
    match memo.leaf? flow with
    | some node => (node, { memo with hits := memo.hits + 1 })
    | none =>
        let node := create flow
        (node,
          { memo with
            entries := memo.entries.insert flow.id (flow.revision, node)
            misses := memo.misses + 1 })

/-- Forget the leaves of flows that are not in a list. -/
def keepOnly (flows : List Flow) (memo : LeafMemo) : LeafMemo :=
  { memo with
    entries :=
      memo.entries.filter fun flowId _ =>
        flows.any fun flow => flow.id == flowId }

end LeafMemo

end BackupHistory
