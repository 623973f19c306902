import StyleCheck.SyntaxTree.Basic

namespace StyleCheck

/-- A pass is handed the whole tree and may give back any other. -/
structure Pass where
  name : String
  requires : List String
  apply : SyntaxTree → SyntaxTree

namespace Pass

def onNodes (name : String) (requires : List String) (mark : Array Node → Array Node) : Pass where
  name := name
  requires := requires
  apply tree := { tree with nodes := mark tree.nodes }

def adopt (parent : Node) (nodes : Array Node) : Array Node :=
  parent.children.foldl (fun nodes child =>
    nodes.modify child fun node => { node with parent := some parent.id }) nodes

theorem getElem?_adopt (parent : Node) (nodes : Array Node) (i : Nat) :
    (adopt parent nodes)[i]? = nodes[i]?.map fun node =>
      if i ∈ parent.children then { node with parent := some parent.id } else node := by
  unfold adopt
  generalize parent.children = children
  induction children generalizing nodes with
  | nil => simp
  | cons child children ih =>
    rw [List.foldl_cons, ih, Array.getElem?_modify]
    by_cases hi : child = i
    · subst hi
      cases nodes[child]? with
      | none => simp
      | some node => by_cases hm : child ∈ children <;> simp [hm]
    · simp [hi, Ne.symm hi]

def lastParent? (i : Nat) (parents : List Node) : Option Nat :=
  (parents.filter (i ∈ ·.children)).getLast?.map (·.id)

theorem getElem?_foldl_adopt (parents : List Node) (nodes : Array Node) (i : Nat) :
    (parents.foldl (fun linked parent => adopt parent linked) nodes)[i]? =
      nodes[i]?.map fun node =>
        { node with parent := (lastParent? i parents).or node.parent } := by
  induction parents generalizing nodes with
  | nil => simp [lastParent?]
  | cons parent parents ih =>
    rw [List.foldl_cons, ih, getElem?_adopt]
    cases nodes[i]? with
    | none => simp
    | some node =>
      by_cases hm : i ∈ parent.children
      · simp only [Option.map_some, hm, if_true, lastParent?]
        rw [List.filter_cons_of_pos (by simpa using hm), List.getLast?_cons]
        cases (List.filter (fun x => decide (i ∈ x.children)) parents).getLast? <;> simp
      · simp only [Option.map_some, hm, if_false, lastParent?]
        rw [List.filter_cons_of_neg (by simpa using hm)]

def link (nodes : Array Node) : Array Node :=
  nodes.foldl (fun linked parent => adopt parent linked) nodes

theorem getElem?_link (nodes : Array Node) (i : Nat) :
    (link nodes)[i]? = nodes[i]?.map fun node =>
      { node with parent := (lastParent? i nodes.toList).or node.parent } := by
  simp only [link, ← Array.foldl_toList]
  exact getElem?_foldl_adopt _ _ _

def linkParents : Pass :=
  .onNodes "link_parents" [] link

def asyncCapable : List String :=
  ["function_definition", "for_statement", "with_statement"]

def hasKind (kind : String) (nodes : Array Node) (id : Nat) : Bool :=
  (nodes[id]?.map (·.kind)) == some kind

def flagAsync (nodes : Array Node) : Array Node :=
  nodes.map fun node =>
    if node.kind ∈ asyncCapable then
      { node with isAsync := node.children.any (hasKind "async" nodes) }
    else node

def markAsync : Pass :=
  .onNodes "mark_async" [] flagAsync

def scopeKinds : List String :=
  ["module", "function_definition", "class_definition"]

def scopeBelow (node : Node) : Option Nat :=
  if node.kind ∈ scopeKinds then some node.id else node.scope

def setScope (nodes : Array Node) (id : Nat) : Array Node :=
  let parent := (nodes[id]?.bind (·.parent)).bind (nodes[·]?)
  let scope := parent.bind scopeBelow
  nodes.modify id fun node => { node with scope := scope }

theorem getElem?_setScope (nodes : Array Node) (id i : Nat) :
    (setScope nodes id)[i]? = nodes[i]?.map fun node =>
      if i = id then { node with scope := (node.parent.bind (nodes[·]?)).bind scopeBelow }
      else node := by
  simp only [setScope, Array.getElem?_modify]
  by_cases h : id = i
  · subst h
    cases nodes[id]? <;> simp
  · simp [h, Ne.symm h]

-- A parent stands before its children, so its scope is known by then.
def setScopes (nodes : Array Node) : Array Node :=
  (List.range nodes.size).foldl setScope nodes

def markScopes : Pass :=
  .onNodes "mark_scopes" ["link_parents"] setScopes

/-- Makes tuples without brackets look like those with brackets. -/
def unify (nodes : Array Node) : Array Node :=
  nodes.map fun node =>
    if node.kind ∈ ["expression_list", "pattern_list"] then { node with kind := "tuple" } else node

def unifyTuples : Pass :=
  .onNodes "normalize_literals" ["link_parents"] unify

def inert (name : String) (requires : List String) : Pass :=
  ⟨name, requires, id⟩

def perform (pass : Pass) (tree : SyntaxTree) : SyntaxTree :=
  let marked := pass.apply tree
  { marked with applied := marked.applied ++ [pass.name] }

end Pass

abbrev Pipeline := List Pass

def Pipeline.standard : Pipeline :=
  [.linkParents, .markAsync, .markScopes, .unifyTuples]

def Pipeline.names (pipeline : Pipeline) : List String :=
  pipeline.map (·.name)

end StyleCheck
