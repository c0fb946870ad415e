import BackupHistory.Tree.Basic

namespace BackupHistory

/-!
# Drawing a tree

A tree is drawn as one line per node, the nodes below a node only where it is
open. Lines connect a node with its siblings. A flow that did not succeed is
followed by its status, a closed group by the count of its children.
-/

namespace Node

/-- Where a node stands among its siblings and how far the drawing goes in. -/
inductive Place where
  | root
  | below (margin : String) (isLast : Bool)
  deriving Repr, DecidableEq

/-- What stands before the title of a node. -/
def Place.branch : Place → String
  | .root => ""
  | .below margin true => margin ++ "└── "
  | .below margin false => margin ++ "├── "

/-- What stands before the lines of the children of a node. -/
def Place.margin : Place → String
  | .root => ""
  | .below margin true => margin ++ "    "
  | .below margin false => margin ++ "│   "

/-- What stands after the title of a node. -/
def remark (isOpen : Bool) (node : Node) : String :=
  match node.flow? with
  | some flow =>
      if flow.status = .success then
        ""
      else
        " <" ++ flow.status.words ++ ">"
  | none =>
      if isOpen then
        ""
      else
        " (+" ++ toString node.children.length ++ ")"

mutual

def draw (isOpen : String → Bool) (place : Place) (node : Node) :
    List String :=
  match node with
  | ⟨key, content, children⟩ =>
      let opened := isOpen key
      let line :=
        place.branch ++ title ⟨key, content, children⟩ ++
          remark opened ⟨key, content, children⟩
      if opened then
        line :: drawAll isOpen place.margin children
      else
        [line]

def drawAll (isOpen : String → Bool) (margin : String) :
    List Node → List String
  | [] => []
  | [last] => draw isOpen (.below margin true) last
  | node :: next :: rest =>
      draw isOpen (.below margin false) node ++
        drawAll isOpen margin (next :: rest)

end

end Node

namespace Tree

/-- The lines of a tree, every node or only what the open nodes show. -/
def draw (showAll : Bool) (tree : Tree) : List String :=
  let openKeys := tree.openKeys
  tree.roots.flatMap
    (Node.draw (fun key => showAll || openKeys.contains key) .root)

end Tree

end BackupHistory
