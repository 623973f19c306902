import StyleCheck.Proofs.SyntaxTree.Decoration

namespace StyleCheck

namespace ParseTree

mutual

theorem getElem?_lower {id i : Nat} {tree : ParseTree} {node : Node}
    (h : (lower id tree)[i]? = some node) :
    ∃ info children, tree.preorder[i]? = some info ∧ node = info.toNode (id + i) children := by
  cases tree with
  | node info children =>
    cases i with
    | zero =>
      cases h
      exact ⟨info, _, rfl, rfl⟩
    | succ i =>
      have h : (lowers (id + 1) children)[i]? = some node := h
      obtain ⟨found, below, hp, hn⟩ := getElem?_lowers h
      rw [Nat.add_right_comm] at hn
      exact ⟨found, below, hp, hn⟩

theorem getElem?_lowers {id i : Nat} {trees : List ParseTree} {node : Node}
    (h : (lowers id trees)[i]? = some node) :
    ∃ info children, (preorders trees)[i]? = some info ∧
      node = info.toNode (id + i) children := by
  cases trees with
  | nil => cases h
  | cons tree trees =>
    rw [lowers] at h
    rw [preorders]
    rcases Nat.lt_or_ge i tree.size with hlt | hge
    · rw [List.getElem?_append_left (by rwa [length_lower])] at h
      rw [List.getElem?_append_left (by rwa [length_preorder])]
      exact getElem?_lower h
    · rw [List.getElem?_append_right (by rwa [length_lower]), length_lower] at h
      rw [List.getElem?_append_right (by rwa [length_preorder]), length_preorder]
      have hid : id + tree.size + (i - tree.size) = id + i := by omega
      have := getElem?_lowers h
      rwa [hid] at this

end

end ParseTree

theorem Pipeline.node?_of_build {pipeline : Pipeline} (hp : ∀ pass ∈ pipeline, pass.IsHarmless)
    {grammar : Grammar} {source : List Char} {tree : SyntaxTree}
    (h : pipeline.build grammar source = .ok tree) {i : Nat} {node : Node}
    (hn : tree.node? i = some node) :
    ∃ info, (grammar source).preorder[i]? = some info ∧ node.id = i ∧
      node.start = .ofPoint info.start := by
  rw [SyntaxTree.node?, nodes_of_build hp h, Pass.Marks.getElem?_decorate] at hn
  obtain ⟨original, hlower, rfl⟩ := Option.map_eq_some_iff.mp hn
  rw [ParseTree.toSyntaxTree, ParseTree.toNodes_eq, List.getElem?_toArray] at hlower
  obtain ⟨info, children, hinfo, rfl⟩ := ParseTree.getElem?_lower hlower
  exact ⟨info, hinfo, Nat.zero_add i, rfl⟩

end StyleCheck
