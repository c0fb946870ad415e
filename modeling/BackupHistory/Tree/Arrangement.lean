import BackupHistory.Tree.Expansion
import BackupHistory.Tree.LeafMemo

namespace BackupHistory

/-!
# Arranging flows as a tree

Flows are grouped by the texts that identify their groups. Groups stand in
descending order of their keys, which puts the most recent day first, and the
flows of a day from the latest to the earliest.
-/

/-- How a tree is to be expanded. -/
structure TreeOptions where
  /-- The policy in place of the one of the view. -/
  expansion : Option ExpansionPolicy
  /-- The only instance to be expanded in the view of a repository. -/
  expandInstance : Option String
  deriving Repr, DecidableEq

def TreeOptions.none : TreeOptions :=
  ⟨Option.none, Option.none⟩

/-- Which view is built, by which clock and with which options. -/
structure Arrangement where
  scope : Tree.Scope
  /-- The seconds that the viewer's clock is ahead of universal time. -/
  offset : Int
  options : TreeOptions
  deriving Repr, DecidableEq

namespace Arrangement

def expansion (arrangement : Arrangement) : ExpansionPolicy :=
  arrangement.options.expansion.getD (.ofScope arrangement.scope)

/-- What separates the parts of a plan's key. -/
def keySeparator : String :=
  "\x01"

/-- What is said about the instance of operations without an owner. -/
def unassociatedInstanceHelp : String :=
  "The _unassociated_ instance collects operations without a created-by " ++
    "tag naming the installation that created them."

/-- What is said about the plan of operations without an owner. -/
def unassociatedPlanHelp : String :=
  "The _unassociated_ plan collects operations without a plan tag naming " ++
    "the backup plan that created them."

/-- What is said about the plan of operations on a whole repository. -/
def systemPlanHelp : String :=
  "The _system_ plan collects repository-level operations not tied to any " ++
    "single plan, such as checks or prune runs."

def instanceHelp (instanceId : String) : Option String :=
  if instanceId = unassociatedId then
    some unassociatedInstanceHelp
  else
    none

def planHelp (planId : String) : Option String :=
  if planId = unassociatedId then
    some unassociatedPlanHelp
  else if planId = systemPlanId then
    some systemPlanHelp
  else
    none

/-- The flows of each key in their order, groups in the order of the keys. -/
def groupBy (key : Flow → String) (flows : List Flow) :
    List (String × List Flow) :=
  let add (groups : Table String (List Flow)) (flow : Flow) :=
    groups.insert (key flow) ((groups.get? (key flow)).getD [] ++ [flow])
  (flows.foldl add .empty).entries

def byKeyDescending (nodes : List Node) : List Node :=
  nodes.mergeSort fun left right => decide (right.key ≤ left.key)

/-- Flows from the latest to the earliest, at one time by descending id. -/
def latestFirst (flows : List Flow) : List Flow :=
  flows.mergeSort fun left right =>
    ((compare right.time left.time).then
      (compare right.id left.id)).isLE

/-- The title of a flow: its category, its time and its subtitle. -/
def leafTitle (offset : Int) (flow : Flow) : String :=
  let heading := flow.category.label ++ " " ++ flow.time.timeText offset
  if flow.subtitle.isEmpty then
    heading
  else
    heading ++ " [" ++ ", ".intercalate flow.subtitle ++ "]"

def leafNode (offset : Int) (flow : Flow) : Node where
  key := flow.id
  content := .leaf (leafTitle offset flow) flow
  children := []

def leaves (offset : Int) (flows : List Flow) :
    StateM LeafMemo (List Node) :=
  (latestFirst flows).mapM (LeafMemo.leaf (leafNode offset))

def dayNode
    (offset : Int)
    (keyStart day : String)
    (flows : List Flow) :
    StateM LeafMemo Node := do
  let title :=
    match flows with
    | [] => day
    | flow :: _ => flow.time.weekdayText offset
  let children ← leaves offset flows
  pure {
    key := keyStart ++ day
    content := .dayGroup day ⟨title, none⟩
    children := children }

def dayNodes (offset : Int) (keyStart : String) (flows : List Flow) :
    StateM LeafMemo (List Node) :=
  byKeyDescending <$>
    (groupBy (fun flow => flow.time.dayText offset) flows).mapM
      fun (day, members) => dayNode offset keyStart day members

/-- The key of a plan of an instance. -/
def planKey (instanceId planId : String) : String :=
  planId ++ keySeparator ++ instanceId ++ keySeparator

/-- The node of a plan of an instance. -/
def planNode
    (offset : Int)
    (instanceId planId : String)
    (flows : List Flow) :
    StateM LeafMemo Node := do
  let key := planKey instanceId planId
  let children ← dayNodes offset key flows
  pure {
    key := key
    content := .planGroup planId ⟨planId, planHelp planId⟩
    children := children }

/-- The nodes of the plans of an instance. -/
def planNodes (offset : Int) (instanceId : String) (flows : List Flow) :
    StateM LeafMemo (List Node) :=
  byKeyDescending <$>
    (groupBy Flow.planId flows).mapM
      fun (planId, members) => planNode offset instanceId planId members

def instanceNode
    (offset : Int)
    (instanceId : String)
    (flows : List Flow) :
    StateM LeafMemo Node := do
  let children ← planNodes offset instanceId flows
  pure {
    key := "i" ++ instanceId
    content :=
      .instanceGroup instanceId ⟨instanceId, instanceHelp instanceId⟩
    children := children }

def instanceNodes (offset : Int) (flows : List Flow) :
    StateM LeafMemo (List Node) :=
  byKeyDescending <$>
    (groupBy Flow.instanceId flows).mapM
      fun (instanceId, members) => instanceNode offset instanceId members

def roots (arrangement : Arrangement) (flows : List Flow) :
    StateM LeafMemo (List Node) :=
  match arrangement.scope with
  | .plan => dayNodes arrangement.offset "" flows
  | .repository => instanceNodes arrangement.offset flows

/-- The keys of the nodes that start out open. -/
def expandedKeys (arrangement : Arrangement) (roots : List Node) :
    List String :=
  match arrangement.options.expandInstance, arrangement.scope with
  | some instanceId, .repository =>
      match roots.find? fun root => root.instanceId? == some instanceId with
      | some root => arrangement.expansion.expand [root]
      | none => []
  | _, _ => arrangement.expansion.expand roots

/-- The tree of flows, with the leaves that a memo holds and the new memo. -/
def buildWith
    (arrangement : Arrangement)
    (flows : List Flow)
    (memo : LeafMemo) :
    Tree × LeafMemo :=
  let (roots, memo) := (arrangement.roots flows).run memo.begin
  ({ scope := arrangement.scope
     roots := roots
     expanded := arrangement.expandedKeys roots },
    memo.keepOnly flows)

def build (arrangement : Arrangement) (flows : List Flow) : Tree :=
  (arrangement.buildWith flows .empty).1

end Arrangement

end BackupHistory
