import StyleCheck.ParseTree
import StyleCheck.Text.Lines

namespace StyleCheck

structure Node where
  id : Nat
  kind : String
  /-- The kind that the grammar gave the node. -/
  grammarKind : String
  field : Option String
  named : Bool
  start : Position
  stop : Position
  startByte : Nat
  stopByte : Nat
  children : List Nat
  parent : Option Nat
  isAsync : Bool
  scope : Option Nat
deriving DecidableEq, Repr

structure SyntaxTree where
  source : List Char
  nodes : Array Node
  applied : List String
deriving DecidableEq, Repr

namespace SyntaxTree

def size (tree : SyntaxTree) : Nat :=
  tree.nodes.size

def walk (tree : SyntaxTree) : List Nat :=
  List.range tree.size

def node? (tree : SyntaxTree) (id : Nat) : Option Node :=
  tree.nodes[id]?

def text (tree : SyntaxTree) (node : Node) : List Char :=
  Text.slice node.startByte node.stopByte tree.source

def parent? (tree : SyntaxTree) (node : Node) : Option Node :=
  node.parent.bind tree.node?

def children (tree : SyntaxTree) (node : Node) : List Node :=
  node.children.filterMap tree.node?

def elements (tree : SyntaxTree) (node : Node) : List Node :=
  (tree.children node).filter fun child => child.named && child.kind != "comment"

def child? (tree : SyntaxTree) (node : Node) (field : String) : Option Node :=
  (tree.children node).find? (·.field == some field)

def ancestorsWithin (tree : SyntaxTree) : Nat → Node → List Node
  | 0, _ => []
  | fuel + 1, node =>
    match tree.parent? node with
    | none => []
    | some parent => parent :: ancestorsWithin tree fuel parent

def ancestors (tree : SyntaxTree) (node : Node) : List Node :=
  tree.ancestorsWithin tree.size node

end SyntaxTree

end StyleCheck
