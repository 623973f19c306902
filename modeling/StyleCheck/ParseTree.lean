import StyleCheck.Position
import StyleCheck.Text.Lines

namespace StyleCheck

def Point.ofByte (source : List Char) (byte : Nat) : Point :=
  let before := Text.slice 0 byte source
  ⟨before.count '\n', Text.width (before.reverse.takeWhile (· != '\n'))⟩

namespace ParseTree

structure Info where
  kind : String
  field : Option String
  named : Bool
  isError : Bool
  isMissing : Bool
  /-- Whether the node or one below it is an error or missing. -/
  hasError : Bool
  start : Point
  stop : Point
  startByte : Nat
  stopByte : Nat
deriving DecidableEq, Repr

def Info.over (source : List Char) (kind : String) (field : Option String)
    (named isError isMissing hasError : Bool) (startByte stopByte : Nat) : Info where
  kind := kind
  field := field
  named := named
  isError := isError
  isMissing := isMissing
  hasError := hasError
  start := .ofByte source startByte
  stop := .ofByte source stopByte
  startByte := startByte
  stopByte := stopByte

end ParseTree

inductive ParseTree where
  | node (info : ParseTree.Info) (children : List ParseTree)

def ParseTree.inner (source : List Char) (kind : String) (field : Option String)
    (startByte stopByte : Nat) (children : List ParseTree) : ParseTree :=
  .node (.over source kind field true false false false startByte stopByte) children

def ParseTree.token (source : List Char) (kind : String) (field : Option String)
    (startByte stopByte : Nat) : ParseTree :=
  .node (.over source kind field false false false false startByte stopByte) []

/-- A grammar finds a tree for every text. -/
abbrev Grammar := List Char → ParseTree

namespace ParseTree

def info : ParseTree → Info
  | node info _ => info

def children : ParseTree → List ParseTree
  | node _ children => children

mutual

def size : ParseTree → Nat
  | node _ children => 1 + sizes children

def sizes : List ParseTree → Nat
  | [] => 0
  | tree :: trees => tree.size + sizes trees

end

mutual

def preorder : ParseTree → List Info
  | node info children => info :: preorders children

def preorders : List ParseTree → List Info
  | [] => []
  | tree :: trees => tree.preorder ++ preorders trees

end

mutual

theorem length_preorder (tree : ParseTree) : tree.preorder.length = tree.size := by
  cases tree with
  | node info children => simp [preorder, size, length_preorders children, Nat.add_comm]

theorem length_preorders (trees : List ParseTree) : (preorders trees).length = sizes trees := by
  cases trees with
  | nil => rfl
  | cons tree trees => simp [preorders, sizes, length_preorder tree, length_preorders trees]

end

def Info.fault? (info : Info) : Option SyntaxError :=
  if info.isMissing then some ⟨.ofPoint info.start, .missing info.kind⟩
  else if info.isError then some ⟨.ofPoint info.start, .unexpectedInput⟩
  else none

/-- A place in a tree: the root, or a tree below a place, with those to its right. -/
inductive Cursor
  | root (tree : ParseTree)
  | child (parent : Cursor) (tree : ParseTree) (right : List ParseTree)

namespace Cursor

def tree : Cursor → ParseTree
  | root tree => tree
  | child _ tree _ => tree

def firstChild? (cursor : Cursor) : Option Cursor :=
  match cursor.tree.children with
  | [] => none
  | tree :: right => some (.child cursor tree right)

def climb? : Cursor → List Nat → Option (Cursor × List Nat)
  | root _, _ => none
  | child parent _ [], around => climb? parent around.tail
  | child parent _ (tree :: right), around => some (.child parent tree right, around)

def right? (cursor : Cursor) : Option Cursor :=
  (cursor.climb? []).map Prod.fst

def onward? (cursor : Cursor) : Option Cursor :=
  match if cursor.tree.info.hasError then cursor.firstChild? else none with
  | some first => some first
  | none => cursor.right?

end Cursor

def searchFrom (tree : ParseTree) : Nat → Cursor → SyntaxError
  | 0, _ => ⟨.ofPoint tree.info.start, .unexpectedInput⟩
  | turns + 1, cursor =>
    match cursor.tree.info.fault? with
    | some error => error
    | none =>
      match cursor.onward? with
      | some next => searchFrom tree turns next
      | none => ⟨.ofPoint tree.info.start, .unexpectedInput⟩

def firstError? (tree : ParseTree) : Option SyntaxError :=
  if tree.info.hasError then some (tree.searchFrom tree.size (.root tree)) else none

end ParseTree

end StyleCheck
