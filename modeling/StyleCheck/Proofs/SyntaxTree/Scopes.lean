import StyleCheck.Proofs.SyntaxTree.CursorWalk
import StyleCheck.SyntaxTree.Pass

namespace StyleCheck

namespace Node

def plain (node : Node) : Node :=
  { node with kind := node.grammarKind, parent := none, isAsync := false, scope := none }

structure Fresh (node : Node) : Prop where
  plain_eq : node.plain = node
  id_lt : ∀ child ∈ node.children, node.id < child

end Node

namespace ParseTree

theorem le_of_mem_rootIds {id i : Nat} {trees : List ParseTree} (h : i ∈ rootIds id trees) :
    id ≤ i := by
  induction trees generalizing id with
  | nil => simp [rootIds] at h
  | cons tree trees ih =>
    rcases List.mem_cons.1 h with rfl | h
    · exact Nat.le_refl _
    · have := ih h
      omega

mutual

theorem fresh_of_mem_lower {id : Nat} {tree : ParseTree} {node : Node}
    (h : node ∈ lower id tree) : node.Fresh := by
  cases tree with
  | node info children =>
    rcases List.mem_cons.1 h with rfl | h
    · exact ⟨rfl, fun child hc => le_of_mem_rootIds hc⟩
    · exact fresh_of_mem_lowers h

theorem fresh_of_mem_lowers {id : Nat} {trees : List ParseTree} {node : Node}
    (h : node ∈ lowers id trees) : node.Fresh := by
  cases trees with
  | nil => simp [lowers] at h
  | cons tree trees =>
    rcases List.mem_append.1 h with h | h
    · exact fresh_of_mem_lower h
    · exact fresh_of_mem_lowers h

end

end ParseTree

namespace Pass

structure Resolves (nodes : Array Node) (scope : Nat → Option Nat) : Prop where
  parent_lt : ∀ (i : Nat) (node : Node) (p : Nat),
    nodes[i]? = some node → node.parent = some p → p < i
  scope_eq : ∀ (i : Nat) (node : Node), nodes[i]? = some node →
    scope i = node.parent.bind fun p => nodes[p]?.bind fun parent =>
      if parent.kind ∈ scopeKinds then some parent.id else scope p

theorem getElem?_foldl_setScope {nodes : Array Node} {scope : Nat → Option Nat}
    (h : Resolves nodes scope) (n i : Nat) :
    ((List.range n).foldl setScope nodes)[i]? = nodes[i]?.map fun node =>
      { node with scope := if i < n then scope i else node.scope } := by
  induction n generalizing i with
  | zero => simp
  | succ n ih =>
    rw [List.range_succ, List.foldl_append, List.foldl_cons, List.foldl_nil, getElem?_setScope, ih,
      Option.map_map]
    cases hi : nodes[i]? with
    | none => rfl
    | some node =>
      simp only [Option.map_some, Function.comp_apply, Option.some.injEq]
      by_cases hn : i = n
      · subst hn
        rw [if_pos rfl, if_pos (Nat.lt_succ_self i), h.scope_eq i node hi]
        congr 1
        cases hp : node.parent with
        | none => rfl
        | some p =>
          -- The parent comes before `i`, so its scope is set by now.
          have hlt := h.parent_lt i node p hi hp
          rw [Option.bind_some, Option.bind_some, ih]
          simp only [if_pos hlt]
          cases nodes[p]? <;> rfl
      · have hlt : i < n + 1 ↔ i < n := by omega
        simp only [if_neg hn, hlt]

theorem getElem?_setScopes {nodes : Array Node} {scope : Nat → Option Nat}
    (h : Resolves nodes scope) (i : Nat) :
    (setScopes nodes)[i]? = nodes[i]?.map fun node => { node with scope := scope i } := by
  refine (getElem?_foldl_setScope h nodes.size i).trans ?_
  cases hi : nodes[i]? with
  | none => rfl
  | some node =>
    have hlt : i < nodes.size := (Array.getElem?_eq_some_iff.1 hi).1
    simp only [Option.map_some, if_pos hlt]

def enclosing? (nodes : Array Node) (i : Nat) : Option Nat :=
  match lastParent? i nodes.toList with
  | none => none
  | some p =>
    if p < i then
      nodes[p]?.bind fun parent =>
        if parent.kind ∈ scopeKinds then some parent.id else enclosing? nodes p
    else none
termination_by i

def IsFresh (nodes : Array Node) : Prop :=
  ∀ node ∈ nodes, node.Fresh

theorem isFresh_lower (tree : ParseTree) : IsFresh tree.toNodes := by
  intro node h
  rw [ParseTree.toNodes_eq] at h
  exact ParseTree.fresh_of_mem_lower (List.mem_toArray.1 h)

theorem lastParent?_lt {nodes : Array Node} (h : IsFresh nodes) {i p : Nat}
    (hp : lastParent? i nodes.toList = some p) : p < i := by
  obtain ⟨parent, hl, rfl⟩ := Option.map_eq_some_iff.1 hp
  obtain ⟨hm, hc⟩ := List.mem_filter.1 (List.mem_of_getLast? hl)
  exact (h parent (Array.mem_toList_iff.1 hm)).id_lt i (of_decide_eq_true hc)

theorem enclosing?_eq {nodes : Array Node} (h : IsFresh nodes) (i : Nat) :
    enclosing? nodes i = (lastParent? i nodes.toList).bind fun p => nodes[p]?.bind fun parent =>
      if parent.kind ∈ scopeKinds then some parent.id else enclosing? nodes p := by
  rw [enclosing?]
  cases hp : lastParent? i nodes.toList with
  | none => rfl
  | some p => exact if_pos (lastParent?_lt h hp)

end Pass

end StyleCheck
