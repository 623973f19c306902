import StyleCheck.SyntaxTree.Basic

/-!
The array of a parse tree: a node before those below it. It is filled on a walk over the tree, and
`lower` says from where the trees below a node get their places.
-/

namespace StyleCheck.ParseTree

def rootIds (id : Nat) : List ParseTree → List Nat
  | [] => []
  | tree :: trees => id :: rootIds (id + tree.size) trees

def Info.toNode (info : Info) (id : Nat) (children : List Nat) : Node where
  id := id
  kind := info.kind
  grammarKind := info.kind
  field := info.field
  named := info.named
  start := .ofPoint info.start
  stop := .ofPoint info.stop
  startByte := info.startByte
  stopByte := info.stopByte
  children := children
  parent := none
  isAsync := false
  scope := none

mutual

def lower (id : Nat) : ParseTree → List Node
  | node info children => info.toNode id (rootIds (id + 1) children) :: lowers (id + 1) children

def lowers (id : Nat) : List ParseTree → List Node
  | [] => []
  | tree :: trees => lower id tree ++ lowers (id + tree.size) trees

end

mutual

theorem length_lower (id : Nat) (tree : ParseTree) : (lower id tree).length = tree.size := by
  cases tree with
  | node info children => simp [lower, size, length_lowers _ children, Nat.add_comm]

theorem length_lowers (id : Nat) (trees : List ParseTree) :
    (lowers id trees).length = sizes trees := by
  cases trees with
  | nil => rfl
  | cons tree trees => simp [lowers, sizes, length_lower id tree, length_lowers _ trees]

end

namespace Cursor

def next? (cursor : Cursor) (id : Nat) (around : List Nat) : Option (Cursor × List Nat) :=
  match cursor.firstChild? with
  | some first => some (first, id :: around)
  | none => cursor.climb? around

end Cursor

def attach (around children : List Nat) (nodes : Array Node) : Array Node :=
  match around with
  | [] => nodes
  | parent :: _ =>
    nodes.modify parent fun node => { node with children := node.children ++ children }

def visit (tree : ParseTree) (around : List Nat) (nodes : Array Node) : Array Node :=
  attach around [nodes.size] (nodes.push (tree.info.toNode nodes.size []))

def lowerFrom : Nat → Cursor → List Nat → Array Node → Array Node
  | 0, _, _, nodes => nodes
  | turns + 1, cursor, around, nodes =>
    match cursor.next? nodes.size around with
    | none => visit cursor.tree around nodes
    | some (next, outer) => lowerFrom turns next outer (visit cursor.tree around nodes)

def toNodes (tree : ParseTree) : Array Node :=
  lowerFrom tree.size (.root tree) [] #[]

end StyleCheck.ParseTree
