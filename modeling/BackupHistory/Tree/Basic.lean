import BackupHistory.Flow
import BackupHistory.Table

namespace BackupHistory

/-!
# History trees

A history tree groups flows under the days on which they ran and, in the view of
a whole repository, days under plans and plans under instances. It also names
the nodes that start out open.
-/

/-- Which view a tree is for. -/
inductive Tree.Scope where
  /-- One plan: flows are grouped by day. -/
  | plan
  /-- A repository: flows are grouped by instance, plan and day. -/
  | repository
  deriving Repr, DecidableEq

/-- The name of a view in a written tree. -/
def Tree.Scope.name : Tree.Scope → String
  | .plan => "plan_scoped"
  | .repository => "repo_scoped"

/-- The title of a group, explained for the reserved ids. -/
structure Node.Label where
  title : String
  description : Option String
  deriving Repr, DecidableEq

/-- What a node stands for. -/
inductive Node.Content where
  | instanceGroup (instanceId : String) (label : Node.Label)
  | planGroup (planId : String) (label : Node.Label)
  | dayGroup (day : String) (label : Node.Label)
  | leaf (title : String) (flow : Flow)
  deriving Repr, DecidableEq

/-- A node of a tree with the nodes below it. -/
structure Node where
  key : String
  content : Node.Content
  children : List Node
  deriving Repr

namespace Node

def title (node : Node) : String :=
  match node.content with
  | .instanceGroup _ label
  | .planGroup _ label
  | .dayGroup _ label => label.title
  | .leaf title _ => title

def description? (node : Node) : Option String :=
  match node.content with
  | .instanceGroup _ label
  | .planGroup _ label
  | .dayGroup _ label => label.description
  | .leaf _ _ => none

def flow? (node : Node) : Option Flow :=
  match node.content with
  | .leaf _ flow => some flow
  | _ => none

def isLeaf (node : Node) : Bool :=
  node.flow?.isSome

def instanceId? (node : Node) : Option String :=
  match node.content with
  | .instanceGroup instanceId _ => some instanceId
  | _ => none

/-- The name of the level that a node is on. -/
def levelName (node : Node) : String :=
  match node.content with
  | .instanceGroup _ _ => "instance"
  | .planGroup _ _ => "plan"
  | .dayGroup _ _ => "day"
  | .leaf _ _ => "flow"

mutual

/-- The flows at the leaves of a node, depth first. -/
def flows : Node → List Flow
  | ⟨_, .leaf _ flow, _⟩ => [flow]
  | ⟨_, _, children⟩ => flowsOfAll children

/-- The flows at the leaves of all nodes, depth first. -/
def flowsOfAll : List Node → List Flow
  | [] => []
  | node :: rest => flows node ++ flowsOfAll rest

end

mutual

/-- The first node with a key, depth first, in a node or below it. -/
def find? (key : String) (node : Node) : Option Node :=
  match node with
  | ⟨ownKey, content, children⟩ =>
      if ownKey = key then
        some ⟨ownKey, content, children⟩
      else
        findAmong? key children

/-- The first node with a key, depth first, among nodes and below them. -/
def findAmong? (key : String) : List Node → Option Node
  | [] => none
  | node :: rest => (find? key node).or (findAmong? key rest)

end

mutual

/--
The keys of a node and of the nodes on the way to a wanted one.

A node is listed if its own key is wanted or if some node below it is listed.
-/
def pathKeys (wanted : List String) : Node → List String
  | ⟨key, _, children⟩ =>
      let below := pathKeysOfAll wanted children
      if wanted.contains key || !below.isEmpty then
        key :: below
      else
        []

/-- The keys of all nodes on the way to a wanted one. -/
def pathKeysOfAll (wanted : List String) : List Node → List String
  | [] => []
  | node :: rest => pathKeys wanted node ++ pathKeysOfAll wanted rest

end

def Label.toJson (label : Label) : Json :=
  .ofMembers <|
    ("title", .ofString label.title) ::
      match label.description with
      | none => []
      | some description => [("description", .ofString description)]

/-- What a node stands for as JSON, its level first. -/
def Content.toJson (content : Content) : Json :=
  match content with
  | .instanceGroup instanceId label =>
      .ofMembers
        [("level", .ofString "instance"),
          ("instance_id", .ofString instanceId),
          ("label", label.toJson)]
  | .planGroup planId label =>
      .ofMembers
        [("level", .ofString "plan"),
          ("plan_id", .ofString planId),
          ("label", label.toJson)]
  | .dayGroup day label =>
      .ofMembers
        [("level", .ofString "day"),
          ("day", .ofString day),
          ("label", label.toJson)]
  | .leaf title flow =>
      .ofMembers
        [("level", .ofString "flow"),
          ("title", .ofString title),
          ("flow", flow.toJson)]

mutual

/-- A node as JSON; a node without children has no member for them. -/
def toJson : Node → Json
  | ⟨key, content, []⟩ =>
      .ofMembers [("key", .ofString key), ("content", content.toJson)]
  | ⟨key, content, first :: rest⟩ =>
      .ofMembers
        [("key", .ofString key),
          ("content", content.toJson),
          ("children", .array (toJsonAll (first :: rest)))]

def toJsonAll : List Node → List Json
  | [] => []
  | node :: rest => toJson node :: toJsonAll rest

end

end Node

/-- A tree and the keys of the nodes that start out open. -/
structure Tree where
  scope : Tree.Scope
  roots : List Node
  expanded : List String
  deriving Repr

namespace Tree

def isEmpty (tree : Tree) : Bool :=
  tree.roots.isEmpty

/-- The flows at the leaves of a tree, depth first. -/
def flows (tree : Tree) : List Flow :=
  Node.flowsOfAll tree.roots

def flowCount (tree : Tree) : Nat :=
  tree.flows.length

/-- The first node with a key, depth first. -/
def find? (tree : Tree) (key : String) : Option Node :=
  Node.findAmong? key tree.roots

/--
The keys of the nodes that have to be open for the expanded ones to be seen,
these included, each once and in order.
-/
def openKeys (tree : Tree) : Table String Unit :=
  .ofList
    ((Node.pathKeysOfAll tree.expanded tree.roots).map fun key => (key, ()))

def toJson (tree : Tree) : Json :=
  .ofMembers
    [("mode", .ofString tree.scope.name),
      ("roots", .array (Node.toJsonAll tree.roots)),
      ("expanded", .array (tree.expanded.map Json.ofString))]

end Tree

end BackupHistory
