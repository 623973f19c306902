import StyleCheck.Proofs.SyntaxTree.Scopes
import StyleCheck.SyntaxTree.Build

/-!
What the passes of a pipeline make of the nodes of a parse tree. It depends on which of them have
run and not on their order: every field of a node is decided by the nodes as they were parsed.
-/

namespace StyleCheck

namespace Pass

def unifiedKind (kind : String) : String :=
  if kind ∈ ["expression_list", "pattern_list"] then "tuple" else kind

theorem unifiedKind_mem_iff {kinds : List String} (ht : "tuple" ∉ kinds)
    (he : "expression_list" ∉ kinds) (hp : "pattern_list" ∉ kinds) (kind : String) :
    unifiedKind kind ∈ kinds ↔ kind ∈ kinds := by
  unfold unifiedKind
  split
  · rename_i h
    simp only [List.mem_cons, List.not_mem_nil, or_false] at h
    rcases h with rfl | rfl
    · exact iff_of_false ht he
    · exact iff_of_false ht hp
  · exact Iff.rfl

theorem unifiedKind_unifiedKind (kind : String) :
    unifiedKind (unifiedKind kind) = unifiedKind kind := by
  by_cases h : kind ∈ ["expression_list", "pattern_list"]
  · rw [unifiedKind, unifiedKind, if_pos h]
    rfl
  · have hk : unifiedKind kind = kind := if_neg h
    rw [hk, hk]

structure Marks where
  parents : Bool
  asyncs : Bool
  scopes : Bool
  tuples : Bool

def Marks.ofNames (names : List String) : Marks where
  parents := names.contains linkParents.name
  asyncs := names.contains markAsync.name
  scopes := names.contains markScopes.name
  tuples := names.contains unifyTuples.name

/-- What the passes that have run say of the node at `i` among the nodes as they were parsed. -/
def Marks.decorateAt (m : Marks) (nodes : Array Node) (i : Nat) (node : Node) : Node :=
  { node with
    kind := if m.tuples then unifiedKind node.kind else node.kind
    parent := if m.parents then lastParent? i nodes.toList else none
    isAsync := m.asyncs && (decide (node.kind ∈ asyncCapable) &&
      node.children.any (hasKind "async" nodes))
    scope := if m.scopes then enclosing? nodes i else none }

def Marks.decorate (m : Marks) (nodes : Array Node) : Array Node :=
  nodes.mapIdx (m.decorateAt nodes)

namespace Marks

variable {m : Marks} {nodes : Array Node}

theorem getElem?_decorate (m : Marks) (nodes : Array Node) (i : Nat) :
    (m.decorate nodes)[i]? = nodes[i]?.map (m.decorateAt nodes i) :=
  Array.getElem?_mapIdx

theorem decorate_none (h : IsFresh nodes) : (ofNames []).decorate nodes = nodes := by
  apply Array.ext_getElem?
  intro i
  rw [getElem?_decorate]
  cases hi : nodes[i]? with
  | none => rfl
  | some node =>
    have hf := (h node (Array.mem_of_getElem? hi)).plain_eq
    have hp : node.parent = none := (congrArg Node.parent hf).symm
    have ha : node.isAsync = false := (congrArg Node.isAsync hf).symm
    have hs : node.scope = none := (congrArg Node.scope hf).symm
    rw [Option.map_some, Option.some.injEq]
    obtain ⟨⟩ := node
    simp_all [decorateAt, ofNames]

theorem lastParent?_decorate (m : Marks) (nodes : Array Node) (i : Nat) :
    lastParent? i (m.decorate nodes).toList = lastParent? i nodes.toList := by
  have hview : ∀ l : List Node, lastParent? i l =
      (((l.map fun node => (node.id, node.children)).filter (i ∈ ·.2)).getLast?).map (·.1) := by
    intro l
    rw [List.filter_map, List.getLast?_map, Option.map_map]
    rfl
  rw [hview, hview]
  congr 3
  apply List.ext_getElem?
  intro j
  rw [List.getElem?_map, List.getElem?_map, Array.getElem?_toList, Array.getElem?_toList,
    getElem?_decorate]
  cases nodes[j]? <;> rfl

theorem kind_decorateAt_mem_iff {kinds : List String} (ht : "tuple" ∉ kinds)
    (he : "expression_list" ∉ kinds) (hp : "pattern_list" ∉ kinds) (i : Nat) (node : Node) :
    (m.decorateAt nodes i node).kind ∈ kinds ↔ node.kind ∈ kinds := by
  simp only [decorateAt]
  split
  · exact unifiedKind_mem_iff ht he hp node.kind
  · exact Iff.rfl

theorem hasKind_decorate (m : Marks) (nodes : Array Node) :
    hasKind "async" (m.decorate nodes) = hasKind "async" nodes := by
  funext i
  unfold hasKind
  rw [getElem?_decorate]
  cases nodes[i]? with
  | none => rfl
  | some node =>
    have hk : (m.decorateAt nodes i node).kind ∈ ["async"] ↔ node.kind ∈ ["async"] :=
      kind_decorateAt_mem_iff (by decide) (by decide) (by decide) i node
    rw [Bool.eq_iff_iff]
    simpa using hk

theorem link_decorate (m : Marks) (nodes : Array Node) :
    link (m.decorate nodes) = { m with parents := true }.decorate nodes := by
  apply Array.ext_getElem?
  intro i
  rw [getElem?_link, lastParent?_decorate, getElem?_decorate, getElem?_decorate,
    Option.map_map]
  congr 1
  funext node
  cases hm : m.parents <;> simp [decorateAt, hm]

theorem flagAsync_decorate (m : Marks) (nodes : Array Node) :
    flagAsync (m.decorate nodes) = { m with asyncs := true }.decorate nodes := by
  apply Array.ext_getElem?
  intro i
  simp only [flagAsync, hasKind_decorate, Array.getElem?_map, getElem?_decorate, Option.map_map]
  congr 1
  funext node
  have hmem : (m.decorateAt nodes i node).kind ∈ asyncCapable ↔ node.kind ∈ asyncCapable :=
    kind_decorateAt_mem_iff (by decide) (by decide) (by decide) i node
  simp only [Function.comp_apply, hmem]
  by_cases hk : node.kind ∈ asyncCapable <;> simp [decorateAt, hk]

theorem unify_decorate (m : Marks) (nodes : Array Node) :
    unify (m.decorate nodes) = { m with tuples := true }.decorate nodes := by
  have happly : ∀ node : Node, (if node.kind ∈ ["expression_list", "pattern_list"] then
      { node with kind := "tuple" } else node) = { node with kind := unifiedKind node.kind } := by
    intro node
    unfold unifiedKind
    split <;> rfl
  apply Array.ext_getElem?
  intro i
  simp only [unify, happly, Array.getElem?_map, getElem?_decorate, Option.map_map]
  congr 1
  funext node
  cases hm : m.tuples <;> simp [decorateAt, hm, unifiedKind_unifiedKind]

theorem resolves_decorate (h : IsFresh nodes) (hm : m.parents = true) :
    Resolves (m.decorate nodes) (enclosing? nodes) := by
  have hparent : ∀ (i : Nat) (node : Node), (m.decorate nodes)[i]? = some node →
      node.parent = lastParent? i nodes.toList := by
    intro i node hi
    rw [getElem?_decorate, Option.map_eq_some_iff] at hi
    obtain ⟨original, _, rfl⟩ := hi
    exact if_pos hm
  constructor
  · intro i node p hi hp
    rw [hparent i node hi] at hp
    exact lastParent?_lt h hp
  · intro i node hi
    rw [hparent i node hi, enclosing?_eq h]
    congr 1
    funext p
    rw [getElem?_decorate]
    cases nodes[p]? with
    | none => rfl
    | some parent =>
      have hmem : (m.decorateAt nodes p parent).kind ∈ scopeKinds ↔ parent.kind ∈ scopeKinds :=
        kind_decorateAt_mem_iff (by decide) (by decide) (by decide) p parent
      simp only [Option.map_some, Option.bind_some, hmem]
      rfl

theorem setScopes_decorate (h : IsFresh nodes) (hm : m.parents = true) :
    setScopes (m.decorate nodes) = { m with scopes := true }.decorate nodes := by
  apply Array.ext_getElem?
  intro i
  rw [getElem?_setScopes (resolves_decorate h hm), getElem?_decorate, getElem?_decorate,
    Option.map_map]
  rfl

theorem ofNames_congr {names others : List String}
    (h : ∀ name ∈ Pipeline.standard.names, name ∈ names ↔ name ∈ others) :
    ofNames names = ofNames others := by
  have hc : ∀ name ∈ Pipeline.standard.names, names.contains name = others.contains name := by
    intro name hm
    rw [Bool.eq_iff_iff, List.contains_iff_mem, List.contains_iff_mem]
    exact h name hm
  unfold ofNames
  rw [hc linkParents.name (by decide), hc markAsync.name (by decide),
    hc markScopes.name (by decide), hc unifyTuples.name (by decide)]

end Marks

/-- One of the standard passes, or one that changes nothing and has a name of its own. -/
def IsHarmless (pass : Pass) : Prop :=
  pass ∈ Pipeline.standard ∨
    (pass.name ∉ Pipeline.standard.names ∧ ∀ tree, pass.apply tree = tree)

def KeepsRecord (pass : Pass) : Prop :=
  ∀ tree, (pass.apply tree).applied = tree.applied

/-- What a pass leaves alone that does no more than mark the nodes. -/
structure OnlyMarks (pass : Pass) : Prop where
  source_apply : ∀ tree, (pass.apply tree).source = tree.source
  keepsRecord : pass.KeepsRecord
  plain_apply : ∀ tree, (pass.apply tree).nodes.map Node.plain = tree.nodes.map Node.plain

theorem map_plain_congr {nodes others : Array Node}
    (h : ∀ i : Nat, others[i]?.map Node.plain = nodes[i]?.map Node.plain) :
    others.map Node.plain = nodes.map Node.plain := by
  apply Array.ext_getElem?
  intro i
  rw [Array.getElem?_map, Array.getElem?_map, h]

theorem map_plain_link (nodes : Array Node) :
    (link nodes).map Node.plain = nodes.map Node.plain := by
  apply map_plain_congr
  intro i
  rw [getElem?_link, Option.map_map]
  rfl

theorem map_plain_flagAsync (nodes : Array Node) :
    (flagAsync nodes).map Node.plain = nodes.map Node.plain := by
  rw [flagAsync, Array.map_map]
  apply Array.map_congr_left
  intro node _
  simp only [Function.comp_apply]
  split <;> rfl

theorem map_plain_setScope (nodes : Array Node) (id : Nat) :
    (setScope nodes id).map Node.plain = nodes.map Node.plain := by
  apply map_plain_congr
  intro i
  rw [getElem?_setScope, Option.map_map]
  congr 1
  funext node
  simp only [Function.comp_apply]
  split <;> rfl

theorem map_plain_setScopes (nodes : Array Node) :
    (setScopes nodes).map Node.plain = nodes.map Node.plain := by
  unfold setScopes
  generalize List.range nodes.size = ids
  induction ids generalizing nodes with
  | nil => rfl
  | cons id ids ih => rw [List.foldl_cons, ih, map_plain_setScope]

theorem map_plain_unify (nodes : Array Node) :
    (unify nodes).map Node.plain = nodes.map Node.plain := by
  rw [unify, Array.map_map]
  apply Array.map_congr_left
  intro node _
  simp only [Function.comp_apply]
  split <;> rfl

theorem onlyMarks_onNodes (name : String) (requires : List String)
    {mark : Array Node → Array Node}
    (h : ∀ nodes, (mark nodes).map Node.plain = nodes.map Node.plain) :
    (onNodes name requires mark).OnlyMarks :=
  ⟨fun _ => rfl, fun _ => rfl, fun tree => h tree.nodes⟩

theorem onlyMarks_of_mem_standard : ∀ pass ∈ Pipeline.standard, pass.OnlyMarks := by
  intro pass hp
  simp only [Pipeline.standard, List.mem_cons, List.not_mem_nil, or_false] at hp
  rcases hp with rfl | rfl | rfl | rfl
  · exact onlyMarks_onNodes _ _ map_plain_link
  · exact onlyMarks_onNodes _ _ map_plain_flagAsync
  · exact onlyMarks_onNodes _ _ map_plain_setScopes
  · exact onlyMarks_onNodes _ _ map_plain_unify

theorem onlyMarks_of_apply_eq {pass : Pass} (h : ∀ tree, pass.apply tree = tree) :
    pass.OnlyMarks := by
  constructor
  · intro tree
    rw [h]
  · intro tree
    rw [h]
  · intro tree
    rw [h]

theorem IsHarmless.onlyMarks {pass : Pass} (hp : pass.IsHarmless) : pass.OnlyMarks := by
  rcases hp with hp | ⟨-, hp⟩
  · exact onlyMarks_of_mem_standard pass hp
  · exact onlyMarks_of_apply_eq hp

theorem find?_requires_eq_none_iff {pass : Pass} {given : List String} :
    pass.requires.find? (· ∉ given) = none ↔ ∀ name ∈ pass.requires, name ∈ given := by
  simp only [List.find?_eq_none, decide_eq_true_eq, Decidable.not_not]

theorem ofNames_append (names : List String) (name : String) :
    Marks.ofNames (names ++ [name]) =
      { parents := (Marks.ofNames names).parents || linkParents.name == name
        asyncs := (Marks.ofNames names).asyncs || markAsync.name == name
        scopes := (Marks.ofNames names).scopes || markScopes.name == name
        tuples := (Marks.ofNames names).tuples || unifyTuples.name == name } := by
  simp only [Marks.ofNames, List.contains_append, List.contains_cons, List.contains_nil,
    Bool.or_false]

theorem nodes_apply {pass : Pass} (hp : pass.IsHarmless) {nodes : Array Node} (h : IsFresh nodes)
    {tree : SyntaxTree} {names : List String}
    (ht : tree.nodes = (Marks.ofNames names).decorate nodes)
    (hr : ∀ name ∈ pass.requires, name ∈ names) :
    (pass.apply tree).nodes = (Marks.ofNames (names ++ [pass.name])).decorate nodes := by
  rw [ofNames_append]
  rcases hp with hp | ⟨hn, hp⟩
  · simp only [Pipeline.standard, List.mem_cons, List.not_mem_nil, or_false] at hp
    rcases hp with rfl | rfl | rfl | rfl
    · refine (congrArg link ht).trans ?_
      rw [Marks.link_decorate]
      congr 1
      simp [linkParents, markAsync, markScopes, unifyTuples, onNodes]
    · refine (congrArg flagAsync ht).trans ?_
      rw [Marks.flagAsync_decorate]
      congr 1
      simp [linkParents, markAsync, markScopes, unifyTuples, onNodes]
    · refine (congrArg setScopes ht).trans ?_
      have hlinked : names.contains linkParents.name = true :=
        List.contains_iff_mem.2 (hr linkParents.name List.mem_cons_self)
      rw [Marks.setScopes_decorate h hlinked]
      congr 1
      simp [linkParents, markAsync, markScopes, unifyTuples, onNodes]
    · refine (congrArg unify ht).trans ?_
      rw [Marks.unify_decorate]
      congr 1
      simp [linkParents, markAsync, markScopes, unifyTuples, onNodes]
  · rw [hp, ht]
    congr 1
    have hne : ∀ name ∈ Pipeline.standard.names, (name == pass.name) = false := by
      intro name hm
      apply beq_false_of_ne
      rintro rfl
      exact hn hm
    rw [hne linkParents.name (by decide), hne markAsync.name (by decide),
      hne markScopes.name (by decide), hne unifyTuples.name (by decide)]
    simp only [Bool.or_false]

end Pass

namespace SyntaxTree

theorem run_eq_ok_iff {tree result : SyntaxTree} {pass : Pass} {rest : Pipeline} :
    tree.run (pass :: rest) = .ok result ↔
      (∀ name ∈ pass.requires, name ∈ tree.applied) ∧ (pass.perform tree).run rest = .ok result := by
  rw [← Pass.find?_requires_eq_none_iff, run]
  cases pass.requires.find? (· ∉ tree.applied) with
  | none => simp
  | some missing => simp

theorem source_and_plain_of_run {pipeline : Pipeline} (hp : ∀ pass ∈ pipeline, pass.OnlyMarks)
    {tree result : SyntaxTree} (hr : tree.run pipeline = .ok result) :
    result.source = tree.source ∧ result.nodes.map Node.plain = tree.nodes.map Node.plain := by
  induction pipeline generalizing tree with
  | nil =>
    cases hr
    exact ⟨rfl, rfl⟩
  | cons pass rest ih =>
    obtain ⟨hpass, hrest⟩ := List.forall_mem_cons.1 hp
    obtain ⟨hsource, hplain⟩ := ih hrest (run_eq_ok_iff.1 hr).2
    exact ⟨hsource.trans (hpass.source_apply tree), hplain.trans (hpass.plain_apply tree)⟩

end SyntaxTree

theorem Pipeline.nodes_of_run {pipeline : Pipeline} (hp : ∀ pass ∈ pipeline, pass.IsHarmless)
    {nodes : Array Node} (h : Pass.IsFresh nodes) {tree result : SyntaxTree}
    (ht : tree.nodes = (Pass.Marks.ofNames tree.applied).decorate nodes)
    (hr : tree.run pipeline = .ok result) :
    result.nodes = (Pass.Marks.ofNames (tree.applied ++ pipeline.names)).decorate nodes := by
  induction pipeline generalizing tree with
  | nil =>
    cases hr
    simpa [Pipeline.names] using ht
  | cons pass rest ih =>
    obtain ⟨hpass, hrest⟩ := List.forall_mem_cons.1 hp
    obtain ⟨hrequires, hr⟩ := SyntaxTree.run_eq_ok_iff.1 hr
    have hrecord : (pass.perform tree).applied = tree.applied ++ [pass.name] :=
      congrArg (· ++ [pass.name]) (hpass.onlyMarks.keepsRecord tree)
    have hnodes : (pass.perform tree).nodes =
        (Pass.Marks.ofNames (pass.perform tree).applied).decorate nodes := by
      rw [hrecord]
      exact Pass.nodes_apply hpass h ht hrequires
    have := ih hrest hnodes hr
    rwa [hrecord, List.append_assoc] at this

theorem Pipeline.build_eq_ok_iff {pipeline : Pipeline} {grammar : Grammar} {source : List Char}
    {tree : SyntaxTree} : pipeline.build grammar source = .ok tree ↔
      (grammar source).firstError? = none ∧
        ((grammar source).toSyntaxTree source).run pipeline = .ok tree := by
  simp only [build]
  cases (grammar source).firstError? with
  | none => simp
  | some fault => simp

theorem Pipeline.nodes_of_build {pipeline : Pipeline} (hp : ∀ pass ∈ pipeline, pass.IsHarmless)
    {grammar : Grammar} {source : List Char} {tree : SyntaxTree}
    (h : pipeline.build grammar source = .ok tree) :
    tree.nodes = (Pass.Marks.ofNames pipeline.names).decorate
      ((grammar source).toSyntaxTree source).nodes := by
  have hf := Pass.isFresh_lower (grammar source)
  exact nodes_of_run hp hf (Pass.Marks.decorate_none hf).symm (build_eq_ok_iff.1 h).2

theorem Pass.IsFresh.map_plain {nodes : Array Node} (h : Pass.IsFresh nodes) :
    nodes.map Node.plain = nodes := by
  refine Eq.trans ?_ (Array.map_id nodes)
  apply Array.map_congr_left
  intro node hm
  exact (h node hm).plain_eq

theorem Pipeline.plain_of_build {pipeline : Pipeline} (hp : ∀ pass ∈ pipeline, pass.OnlyMarks)
    {grammar : Grammar} {source : List Char} {tree : SyntaxTree}
    (h : pipeline.build grammar source = .ok tree) :
    tree.nodes.map Node.plain = ((grammar source).toSyntaxTree source).nodes := by
  rw [(SyntaxTree.source_and_plain_of_run hp (build_eq_ok_iff.1 h).2).2]
  exact Pass.IsFresh.map_plain (Pass.isFresh_lower (grammar source))

/-- Pipelines of the same passes build the same nodes, in whatever order and however often the
passes stand in them, and no pipeline changes what the grammar says of a node. -/
theorem Pipeline.build_confluent {a b : Pipeline} {grammar : Grammar} {source : List Char}
    {t u : SyntaxTree} (ha : ∀ pass ∈ a, pass.IsHarmless) (hb : ∀ pass ∈ b, pass.IsHarmless)
    (ht : a.build grammar source = .ok t) (hu : b.build grammar source = .ok u)
    (hn : ∀ name ∈ Pipeline.standard.names, name ∈ a.names ↔ name ∈ b.names) :
    t.nodes = u.nodes ∧ t.nodes.map Node.plain = ((grammar source).toSyntaxTree source).nodes := by
  have hmarks : Pass.Marks.ofNames a.names = Pass.Marks.ofNames b.names :=
    Pass.Marks.ofNames_congr hn
  constructor
  · rw [nodes_of_build ha ht, nodes_of_build hb hu, hmarks]
  · exact plain_of_build (fun pass hp => (ha pass hp).onlyMarks) ht

def asyncDefinition : Grammar := fun source =>
  let node := ParseTree.inner source
  let token := ParseTree.token source
  node "module" none 0 31
    [node "function_definition" none 0 30
       [token "async" none 0 5, token "def" none 6 9, node "identifier" (some "name") 10 11 [],
        node "parameters" (some "parameters") 11 13 [token "(" none 11 12, token ")" none 12 13],
        token ":" none 13 14,
        node "block" (some "body") 19 30
          [node "return_statement" none 19 30
             [token "return" none 19 25,
              node "expression_list" none 26 30
                [node "integer" none 26 27 [], token "," none 27 28, node "integer" none 29 30 []]]]]]

def Pipeline.scopesLast : Pipeline :=
  [.linkParents, .unifyTuples, .markAsync, .markScopes]

def Pipeline.repeating : Pipeline :=
  [.markAsync, .linkParents, .markScopes, .inert "count" ["mark_async"], .markScopes, .linkParents,
    .unifyTuples]

theorem Pipeline.build_confluent_on_asyncDefinition :
    let source := "async def f():\n    return 1, 2\n".toList
    ∃ t u, scopesLast.build asyncDefinition source = .ok t ∧
      repeating.build asyncDefinition source = .ok u ∧ t.nodes = u.nodes ∧
      t.nodes.map Node.plain = ((asyncDefinition source).toSyntaxTree source).nodes := by
  intro source
  have ht : scopesLast.build asyncDefinition source = .ok _ := rfl
  have hu : repeating.build asyncDefinition source = .ok _ := rfl
  have ha : ∀ pass ∈ scopesLast, pass.IsHarmless := by
    simp [scopesLast, Pass.IsHarmless, standard]
  have hb : ∀ pass ∈ repeating, pass.IsHarmless := by
    simp [repeating, Pass.IsHarmless, standard, names, Pass.inert, Pass.linkParents,
      Pass.markAsync, Pass.markScopes, Pass.unifyTuples, Pass.onNodes]
  exact ⟨_, _, ht, hu, build_confluent ha hb ht hu (by decide)⟩

end StyleCheck
