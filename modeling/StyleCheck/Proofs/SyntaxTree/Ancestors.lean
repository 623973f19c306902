import StyleCheck.Proofs.SyntaxTree.Decoration
import StyleCheck.Proofs.SyntaxTree.Lowering
import StyleCheck.Proofs.SyntaxTree.Preorder

namespace StyleCheck

namespace ParseTree

variable {tree : ParseTree} {i p : Nat} {node : Node}

theorem id_of_lower (h : (lower 0 tree)[i]? = some node) : node.id = i := by
  obtain ⟨info, children, -, rfl⟩ := getElem?_lower h
  exact Nat.zero_add i

theorem lt_size_of_child (h : (lower 0 tree)[p]? = some node) (hi : i ∈ node.children) :
    i < tree.size := by
  obtain ⟨address, ha⟩ := exists_address_of_node h
  obtain ⟨n, hn⟩ := (mem_children_iff h ha).mp hi
  rw [← length_addresses]
  exact (List.getElem?_eq_some_iff.mp hn).1

theorem lastParent?_lower_iff : Pass.lastParent? i (lower 0 tree) = some p ↔
    ∃ node, (lower 0 tree)[p]? = some node ∧ i ∈ node.children := by
  have hfound : ∀ parent ∈ (lower 0 tree).filter (i ∈ ·.children),
      (lower 0 tree)[parent.id]? = some parent ∧ i ∈ parent.children := by
    intro parent h
    obtain ⟨hm, hi⟩ := List.mem_filter.mp h
    obtain ⟨q, hq⟩ := List.mem_iff_getElem?.mp hm
    rw [id_of_lower hq]
    exact ⟨hq, of_decide_eq_true hi⟩
  constructor
  · intro h
    obtain ⟨parent, hlast, rfl⟩ := Option.map_eq_some_iff.mp h
    exact ⟨parent, hfound parent (List.mem_of_getLast? hlast)⟩
  · rintro ⟨node, hp, hi⟩
    have hpos : 0 < i := by
      apply Nat.pos_of_ne_zero
      rintro rfl
      exact zero_notMem_children hp hi
    obtain ⟨parent, -, hunique⟩ := exists_parent hpos (lt_size_of_child hp hi)
    have hmem : node ∈ (lower 0 tree).filter (i ∈ ·.children) :=
      List.mem_filter.mpr ⟨List.mem_of_getElem? hp, decide_eq_true hi⟩
    have hlast := List.getLast?_eq_some_getLast (List.ne_nil_of_mem hmem)
    obtain ⟨hq, hiq⟩ := hfound _ (List.mem_of_getLast? hlast)
    rw [Pass.lastParent?, hlast, Option.map_some, Option.some.injEq,
      (hunique _ _ hq).mp hiq, (hunique _ _ hp).mp hi]

theorem lastParent?_lower_eq_none_iff (h : (lower 0 tree)[i]? = some node) :
    Pass.lastParent? i (lower 0 tree) = none ↔ i = 0 := by
  constructor
  · intro hnone
    by_contra hi
    obtain ⟨hlt, -⟩ := List.getElem?_eq_some_iff.mp h
    have hsize : i < tree.size := by rwa [length_lower] at hlt
    obtain ⟨p, hp, hunique⟩ := exists_parent (Nat.pos_of_ne_zero hi) hsize
    have hparent := List.getElem?_eq_getElem (Nat.lt_trans hp hlt)
    rw [lastParent?_lower_iff.mpr ⟨_, hparent, (hunique p _ hparent).mpr rfl⟩] at hnone
    cases hnone
  · rintro rfl
    rw [Option.eq_none_iff_forall_ne_some]
    intro p hp
    obtain ⟨parent, hparent, hzero⟩ := lastParent?_lower_iff.mp hp
    exact zero_notMem_children hparent hzero

end ParseTree

namespace SyntaxTree

structure Linked (tree : SyntaxTree) : Prop where
  id_eq : ∀ i node, tree.node? i = some node → node.id = i
  parent_lt : ∀ i node p, tree.node? i = some node → node.parent = some p → p < i
  parent_eq_none_iff : ∀ i node, tree.node? i = some node → (node.parent = none ↔ i = 0)

namespace Linked

variable {tree : SyntaxTree} {i p : Nat} {node parent : Node}

theorem exists_of_lt (hi : tree.node? i = some node) (hp : p < i) :
    ∃ parent, tree.node? p = some parent := by
  obtain ⟨hlt, -⟩ := Array.getElem?_eq_some_iff.mp hi
  exact ⟨_, Array.getElem?_eq_getElem (Nat.lt_trans hp hlt)⟩

theorem node?_of_parent? (h : tree.Linked) (hp : tree.parent? node = some parent) :
    tree.node? parent.id = some parent := by
  obtain ⟨p, -, hp⟩ := Option.bind_eq_some_iff.mp hp
  rwa [h.id_eq p parent hp]

theorem id_lt_of_parent? (h : tree.Linked) (hi : tree.node? i = some node)
    (hp : tree.parent? node = some parent) : parent.id < i := by
  obtain ⟨p, hparent, hp⟩ := Option.bind_eq_some_iff.mp hp
  rw [h.id_eq p parent hp]
  exact h.parent_lt i node p hi hparent

theorem parent?_eq_none_iff (h : tree.Linked) (hi : tree.node? i = some node) :
    tree.parent? node = none ↔ i = 0 := by
  rw [← h.parent_eq_none_iff i node hi, parent?]
  cases hp : node.parent with
  | none => exact iff_of_true rfl rfl
  | some p =>
    obtain ⟨parent, hparent⟩ := exists_of_lt hi (h.parent_lt i node p hi hp)
    rw [Option.bind_some, hparent]
    exact iff_of_false nofun nofun

theorem ancestorsWithin_stable (h : tree.Linked) (hi : tree.node? i = some node) {fuel : Nat}
    (hf : i ≤ fuel) : tree.ancestorsWithin fuel node = tree.ancestorsWithin i node := by
  induction i using Nat.strongRecOn generalizing node fuel with
  | ind i ih =>
    cases hp : tree.parent? node with
    | none =>
      obtain rfl := (h.parent?_eq_none_iff hi).mp hp
      cases fuel with
      | zero => rfl
      | succ fuel => simp only [ancestorsWithin, hp]
    | some parent =>
      have hlt := h.id_lt_of_parent? hi hp
      have hparent := h.node?_of_parent? hp
      obtain ⟨i, rfl⟩ : ∃ k, i = k + 1 := ⟨i - 1, by omega⟩
      obtain ⟨fuel, rfl⟩ : ∃ k, fuel = k + 1 := ⟨fuel - 1, by omega⟩
      rw [ancestorsWithin, ancestorsWithin, hp]
      simp only
      rw [ih _ hlt hparent (by omega : parent.id ≤ fuel), ih _ hlt hparent (by omega : parent.id ≤ i)]

theorem ancestors_eq (h : tree.Linked) (hi : tree.node? i = some node) :
    tree.ancestors node = match tree.parent? node with
      | none => []
      | some parent => parent :: tree.ancestors parent := by
  obtain ⟨hlt, -⟩ := Array.getElem?_eq_some_iff.mp hi
  have hsize : i ≤ tree.size := Nat.le_of_lt hlt
  obtain ⟨size, hs⟩ : ∃ k, tree.size = k + 1 := ⟨tree.size - 1, by rw [size]; omega⟩
  rw [ancestors, hs, ancestorsWithin]
  cases hp : tree.parent? node with
  | none => rfl
  | some parent =>
    have hlt := h.id_lt_of_parent? hi hp
    have hparent := h.node?_of_parent? hp
    simp only
    rw [ancestors, h.ancestorsWithin_stable hparent (by omega : parent.id ≤ size),
      h.ancestorsWithin_stable hparent (by omega : parent.id ≤ tree.size)]

theorem ancestors_of_parent? (h : tree.Linked) (hi : tree.node? i = some node)
    (hp : tree.parent? node = some parent) :
    tree.ancestors node = parent :: tree.ancestors parent := by
  rw [h.ancestors_eq hi, hp]

theorem ancestors_root (h : tree.Linked) (hi : tree.node? 0 = some node) :
    tree.ancestors node = [] := by
  rw [h.ancestors_eq hi, (h.parent?_eq_none_iff hi).mpr rfl]

/-- What holds at the root, and of a node as soon as it holds of its parent, holds of all nodes. -/
theorem induction {motive : Nat → Node → Prop} (h : tree.Linked)
    (root : ∀ node, tree.node? 0 = some node → motive 0 node)
    (step : ∀ i node parent, tree.node? i = some node → tree.parent? node = some parent →
      motive parent.id parent → motive i node)
    (hi : tree.node? i = some node) : motive i node := by
  induction i using Nat.strongRecOn generalizing node with
  | ind i ih =>
    cases hp : tree.parent? node with
    | none =>
      obtain rfl := (h.parent?_eq_none_iff hi).mp hp
      exact root node hi
    | some parent =>
      exact step i node parent hi hp (ih _ (h.id_lt_of_parent? hi hp) (h.node?_of_parent? hp))

theorem ancestors_decreasing (h : tree.Linked) (hi : tree.node? i = some node) :
    (i :: (tree.ancestors node).map (·.id)).Pairwise (· > ·) := by
  refine h.induction (motive := fun i node =>
    (i :: (tree.ancestors node).map (·.id)).Pairwise (· > ·)) ?_ ?_ hi
  · intro node hi
    rw [h.ancestors_root hi]
    exact List.pairwise_singleton _ _
  · intro i node parent hi hp ih
    have hlt := h.id_lt_of_parent? hi hp
    rw [h.ancestors_of_parent? hi hp, List.map_cons, List.pairwise_cons]
    refine ⟨?_, ih⟩
    intro id hid
    rcases List.mem_cons.mp hid with rfl | hid
    · exact hlt
    · exact Nat.lt_trans ((List.pairwise_cons.mp ih).1 id hid) hlt

theorem getLast?_ancestors (h : tree.Linked) (hi : tree.node? i = some node) :
    (node :: tree.ancestors node).getLast? = tree.node? 0 := by
  refine h.induction (motive := fun _ node => (node :: tree.ancestors node).getLast? = _) ?_ ?_ hi
  · intro node hi
    rw [h.ancestors_root hi, hi]
    rfl
  · intro i node parent hi hp ih
    rw [h.ancestors_of_parent? hi hp, List.getLast?_cons_cons, ih]

end Linked

/-- What the links and scopes of a tree say of the nodes around a node. The ids on the way up
decrease, so there are finitely many, and each node on it is the parent of the one before. -/
structure IsNested (tree : SyntaxTree) : Prop where
  id_eq : ∀ i node, tree.node? i = some node → node.id = i
  parent_iff : ∀ i node parent, tree.node? i = some node →
    (tree.parent? node = some parent ↔
      tree.node? parent.id = some parent ∧ i ∈ parent.children)
  root_iff : ∀ i node, tree.node? i = some node → (tree.parent? node = none ↔ i = 0)
  ancestors_eq : ∀ i node, tree.node? i = some node →
    tree.ancestors node = match tree.parent? node with
      | none => []
      | some parent => parent :: tree.ancestors parent
  decreasing : ∀ i node, tree.node? i = some node →
    (i :: (tree.ancestors node).map (·.id)).Pairwise (· > ·)
  ends_at_root : ∀ i node, tree.node? i = some node →
    (tree.ancestors node).getLast? = if i = 0 then none else tree.node? 0
  scope_eq : ∀ i node, tree.node? i = some node →
    node.scope = ((tree.ancestors node).find? fun ancestor =>
      ancestor.kind ∈ ["module", "function_definition", "class_definition"]).map (·.id)

end SyntaxTree

namespace Pipeline

variable {grammar : Grammar} {source : List Char} {tree : SyntaxTree} {i : Nat} {node : Node}

theorem isHarmless_of_mem_standard : ∀ pass ∈ standard, pass.IsHarmless :=
  fun _ h => .inl h

theorem node?_of_standard (h : standard.build grammar source = .ok tree)
    (hi : tree.node? i = some node) : ∃ original,
    ((grammar source).lower 0)[i]? = some original ∧ node.id = i ∧
      node.children = original.children ∧
      node.parent = Pass.lastParent? i ((grammar source).lower 0) ∧
      node.scope = Pass.enclosing? (grammar source).toNodes i := by
  rw [SyntaxTree.node?, nodes_of_build isHarmless_of_mem_standard h,
    Pass.Marks.getElem?_decorate] at hi
  obtain ⟨original, horiginal, rfl⟩ := Option.map_eq_some_iff.mp hi
  have hnodes : ((grammar source).toSyntaxTree source).nodes = (grammar source).toNodes := rfl
  rw [hnodes, ParseTree.toNodes_eq] at horiginal
  rw [List.getElem?_toArray] at horiginal
  have hid : original.id = i := ParseTree.id_of_lower horiginal
  refine ⟨original, horiginal, hid, rfl, ?_, rfl⟩
  rw [hnodes, ParseTree.toNodes_eq]
  rfl

theorem linked_of_standard (h : standard.build grammar source = .ok tree) : tree.Linked := by
  constructor
  · intro i node hi
    obtain ⟨original, -, hid, -⟩ := node?_of_standard h hi
    exact hid
  · intro i node p hi hp
    obtain ⟨original, -, -, -, hparent, -⟩ := node?_of_standard h hi
    rw [hparent] at hp
    have hfresh := Pass.isFresh_lower (grammar source)
    rw [ParseTree.toNodes_eq] at hfresh
    exact Pass.lastParent?_lt hfresh hp
  · intro i node hi
    obtain ⟨original, horiginal, -, -, hparent, -⟩ := node?_of_standard h hi
    rw [hparent]
    exact ParseTree.lastParent?_lower_eq_none_iff horiginal

theorem parent?_iff_of_standard (h : standard.build grammar source = .ok tree) {parent : Node}
    (hi : tree.node? i = some node) :
    tree.parent? node = some parent ↔
      tree.node? parent.id = some parent ∧ i ∈ parent.children := by
  obtain ⟨original, -, -, -, hparent, -⟩ := node?_of_standard h hi
  constructor
  · intro hp
    have hnode := (linked_of_standard h).node?_of_parent? hp
    obtain ⟨p, hlast, hp⟩ := Option.bind_eq_some_iff.mp hp
    rw [(linked_of_standard h).id_eq p parent hp] at hnode ⊢
    rw [hparent, ParseTree.lastParent?_lower_iff] at hlast
    obtain ⟨above, habove, hchild⟩ := hlast
    obtain ⟨original, horiginal, -, hchildren, -⟩ := node?_of_standard h hp
    rw [habove] at horiginal
    cases horiginal
    exact ⟨hnode, hchildren ▸ hchild⟩
  · rintro ⟨hnode, hchild⟩
    obtain ⟨above, habove, -, hchildren, -⟩ := node?_of_standard h hnode
    have hlast : node.parent = some parent.id := by
      rw [hparent, ParseTree.lastParent?_lower_iff]
      exact ⟨above, habove, hchildren ▸ hchild⟩
    rw [SyntaxTree.parent?, hlast, Option.bind_some, hnode]

theorem scope_of_parent? (h : standard.build grammar source = .ok tree) {parent : Node}
    (hi : tree.node? i = some node) (hp : tree.parent? node = some parent) :
    node.scope = if parent.kind ∈ Pass.scopeKinds then some parent.id else parent.scope := by
  have hresolves : Pass.Resolves tree.nodes (Pass.enclosing? (grammar source).toNodes) := by
    rw [nodes_of_build isHarmless_of_mem_standard h]
    exact Pass.Marks.resolves_decorate (Pass.isFresh_lower (grammar source)) rfl
  obtain ⟨-, -, -, -, -, hscope⟩ := node?_of_standard h hi
  have hparent := (linked_of_standard h).node?_of_parent? hp
  obtain ⟨-, -, -, -, -, hparentScope⟩ := node?_of_standard h hparent
  obtain ⟨p, hlink, hp⟩ := Option.bind_eq_some_iff.mp hp
  have hid := (linked_of_standard h).id_eq p parent hp
  rw [SyntaxTree.node?] at hp
  rw [hscope, hresolves.scope_eq i node hi, hlink, Option.bind_some, hp, Option.bind_some,
    hparentScope, hid]

theorem scope_of_root (h : standard.build grammar source = .ok tree)
    (hi : tree.node? 0 = some node) : node.scope = none := by
  obtain ⟨original, horiginal, -, -, -, hscope⟩ := node?_of_standard h hi
  rw [hscope, Pass.enclosing?_eq (Pass.isFresh_lower (grammar source)), ParseTree.toNodes_eq,
    (ParseTree.lastParent?_lower_eq_none_iff horiginal).mpr rfl]
  rfl

theorem scope_eq_find? (h : standard.build grammar source = .ok tree)
    (hi : tree.node? i = some node) :
    node.scope =
      ((tree.ancestors node).find? fun ancestor => ancestor.kind ∈ Pass.scopeKinds).map (·.id) := by
  have hlinked := linked_of_standard h
  refine hlinked.induction (motive := fun _ node => node.scope =
    ((tree.ancestors node).find? fun ancestor => ancestor.kind ∈ Pass.scopeKinds).map (·.id))
    ?_ ?_ hi
  · intro node hi
    rw [hlinked.ancestors_root hi, scope_of_root h hi]
    rfl
  · intro i node parent hi hp ih
    rw [hlinked.ancestors_of_parent? hi hp, scope_of_parent? h hi hp, List.find?_cons, ih]
    by_cases hk : parent.kind ∈ Pass.scopeKinds
    · simp [hk]
    · simp [hk]

/-- In a tree that the standard pipeline has built, the links and scopes are those of the nodes
that hold a node among their children. -/
theorem isNested_of_build (h : standard.build grammar source = .ok tree) : tree.IsNested := by
  have hlinked := linked_of_standard h
  constructor
  · exact hlinked.id_eq
  · intro i node parent hi
    exact parent?_iff_of_standard h hi
  · intro i node hi
    exact hlinked.parent?_eq_none_iff hi
  · intro i node hi
    exact hlinked.ancestors_eq hi
  · intro i node hi
    exact hlinked.ancestors_decreasing hi
  · intro i node hi
    have hlast := hlinked.getLast?_ancestors hi
    cases hp : tree.parent? node with
    | none =>
      obtain rfl := (hlinked.parent?_eq_none_iff hi).mp hp
      rw [hlinked.ancestors_root hi]
      rfl
    | some parent =>
      have hpos : i ≠ 0 := fun hzero => by
        rw [(hlinked.parent?_eq_none_iff hi).mpr hzero] at hp
        cases hp
      rw [hlinked.ancestors_of_parent? hi hp] at hlast ⊢
      rwa [if_neg hpos, ← List.getLast?_cons_cons]
  · intro i node hi
    exact scope_eq_find? h hi

def methodInClass : Grammar := fun source =>
  let node := ParseTree.inner source
  let token := ParseTree.token source
  node "module" none 0 43
    [node "class_definition" none 0 42
       [token "class" none 0 5, node "identifier" (some "name") 6 7 [], token ":" none 7 8,
        node "block" (some "body") 13 42
          [node "function_definition" none 13 42
             [token "def" none 13 16, node "identifier" (some "name") 17 18 [],
              node "parameters" (some "parameters") 18 24
                [token "(" none 18 19, node "identifier" none 19 23 [], token ")" none 23 24],
              token ":" none 24 25,
              node "block" (some "body") 34 42
                [node "return_statement" none 34 42
                   [token "return" none 34 40, node "integer" none 41 42 []]]]]]]

theorem isNested_of_methodInClass : ∃ tree,
    standard.build methodInClass "class A:\n    def f(self):\n        return 1\n".toList =
      .ok tree ∧ tree.IsNested ∧
    tree.nodes.toList.map (·.scope) =
      none :: some 0 :: List.replicate 5 (some 1) ++ List.replicate 11 (some 6) := by
  have h : standard.build methodInClass
    "class A:\n    def f(self):\n        return 1\n".toList = .ok _ := rfl
  exact ⟨_, h, isNested_of_build h, by decide +kernel⟩

end Pipeline

end StyleCheck
