import StyleCheck.Checker.Basic
import StyleCheck.Checker.Builtin
import StyleCheck.Proofs.SyntaxTree.Lowering

/-!
The collections that are reported for their layout. The scan compares each element with the one
before it, and this finds every element that does not start below the ends of all before it.
-/

namespace StyleCheck

def SyntaxTree.IsNumbered (tree : SyntaxTree) : Prop :=
  ∀ id node, tree.node? id = some node → node.id = id

theorem Pipeline.isNumbered_of_build {pipeline : Pipeline} (hp : ∀ pass ∈ pipeline, pass.IsHarmless)
    {grammar : Grammar} {source : List Char} {tree : SyntaxTree}
    (h : pipeline.build grammar source = .ok tree) : tree.IsNumbered := by
  intro id node hn
  obtain ⟨_, _, hid, _⟩ := node?_of_build hp h hn
  exact hid

theorem SyntaxTree.IsNumbered.pairwise_id {tree : SyntaxTree} (h : tree.IsNumbered) :
    (tree.nodes.toList.map (·.id)).Pairwise (· < ·) := by
  have hids : tree.nodes.toList.map (·.id) = tree.walk := by
    apply List.ext_getElem?
    intro i
    rw [List.getElem?_map, Array.getElem?_toList, walk, size]
    cases hn : tree.nodes[i]? with
    | none =>
      have hi := Array.getElem?_eq_none_iff.mp hn
      rw [List.getElem?_eq_none (by simpa using hi), Option.map_none]
    | some node =>
      have hi := (Array.getElem?_eq_some_iff.mp hn).1
      rw [List.getElem?_range hi, Option.map_some, h i node hn]
  rw [hids]
  exact List.pairwise_lt_range

namespace Checker.Layout

def IsCollection (node : Node) : Prop :=
  node.kind ∈ ["list", "set", "dictionary", "argument_list", "parameters"] ∨
    node.kind = "tuple" ∧ node.grammarKind = "tuple"

theorem isBracketed_iff {node : Node} : isBracketed node = true ↔ IsCollection node := by
  rw [isBracketed, Bool.or_eq_true, decide_eq_true_eq, Bool.and_eq_true, beq_iff_eq, beq_iff_eq]
  rfl

def StartsBelow (above node : Node) : Prop :=
  above.stop.line < node.start.line

/-- The first element is not on the opening line, and each element starts below all before it. -/
structure IsStacked (opening : Nat) (elements : List Node) : Prop where
  first : ∀ e, elements.head? = some e → e.start.line ≠ opening
  pairwise : elements.Pairwise StartsBelow

structure IsBadlyLaidOut (tree : SyntaxTree) (node : Node) : Prop where
  collection : IsCollection node
  nonempty : tree.elements node ≠ []
  not_on_opening : ¬∀ e ∈ tree.elements node, e.start.line = node.start.line
  not_stacked : ¬IsStacked node.start.line (tree.elements node)

variable {line opening : Nat} {first : Node} {elements : List Node}

/-- The line where the last element ended is all that the scan has to know of those before. -/
theorem eachBelow_iff (h : ∀ e ∈ elements, e.start.line ≤ e.stop.line) :
    eachBelow line elements = true ↔
      (∀ e ∈ elements, line < e.start.line) ∧ elements.Pairwise StartsBelow := by
  induction elements generalizing line with
  | nil => simp [eachBelow]
  | cons e rest ih =>
    obtain ⟨he, hrest⟩ := List.forall_mem_cons.mp h
    rw [eachBelow, Bool.and_eq_true, decide_eq_true_eq, ih hrest, List.forall_mem_cons,
      List.pairwise_cons]
    constructor
    · rintro ⟨hline, hbelow, hpairs⟩
      have hlater : ∀ later ∈ rest, line < later.start.line := by
        intro later hmem
        have := hbelow later hmem
        omega
      exact ⟨⟨hline, hlater⟩, hbelow, hpairs⟩
    · rintro ⟨⟨hline, -⟩, hbelow, hpairs⟩
      exact ⟨hline, hbelow, hpairs⟩

theorem isStacked_cons_iff : IsStacked opening (first :: elements) ↔
    first.start.line ≠ opening ∧ (first :: elements).Pairwise StartsBelow := by
  constructor
  · rintro ⟨hfirst, hpairs⟩
    exact ⟨hfirst first rfl, hpairs⟩
  · rintro ⟨hfirst, hpairs⟩
    refine ⟨?_, hpairs⟩
    intro e he
    cases he
    exact hfirst

theorem isConsistent_iff (h : ∀ e ∈ elements, e.start.line ≤ e.stop.line) :
    isConsistent opening elements = true ↔
      (∀ e ∈ elements, e.start.line = opening) ∨ IsStacked opening elements := by
  cases elements with
  | nil => simp [isConsistent]
  | cons first rest =>
    rw [isConsistent, List.forall_mem_cons, isStacked_cons_iff, List.pairwise_cons]
    by_cases hfirst : first.start.line = opening
    · simp [hfirst]
    · rw [if_neg hfirst, eachBelow_iff (List.forall_mem_cons.mp h).2]
      simp [hfirst, StartsBelow]

variable {file : SourceFile}

theorem mem_nodes_of_mem_elements {tree : SyntaxTree} {node e : Node}
    (h : e ∈ tree.elements node) : e ∈ tree.nodes := by
  obtain ⟨id, -, hid⟩ := List.mem_filterMap.mp (List.mem_filter.mp h).1
  exact Array.mem_of_getElem? hid

theorem isBad_iff {tree : SyntaxTree} {node : Node}
    (hlines : ∀ node ∈ tree.nodes, node.start.line ≤ node.stop.line) :
    isBad tree node = true ↔ IsBadlyLaidOut tree node := by
  have helements : ∀ e ∈ tree.elements node, e.start.line ≤ e.stop.line :=
    fun e he => hlines e (mem_nodes_of_mem_elements he)
  rw [isBad, Bool.and_eq_true, Bool.not_eq_true', Bool.eq_false_iff, ne_eq,
    isConsistent_iff helements, isBracketed_iff, not_or]
  constructor
  · rintro ⟨hcollection, hopening, hstacked⟩
    refine ⟨hcollection, ?_, hopening, hstacked⟩
    intro hnil
    exact hopening (by simp [hnil])
  · rintro ⟨hcollection, -, hopening, hstacked⟩
    exact ⟨hcollection, hopening, hstacked⟩

theorem violations_badlyLaidOut (settings : Settings) (hnumbered : file.tree.IsNumbered)
    (hlines : ∀ node ∈ file.tree.nodes, node.start.line ≤ node.stop.line) :
    ∃ bad : List Node,
      checker.violations settings file =
        bad.map (.atNode Rule.Catalogue.parametersIndentation) ∧
      (bad.map (·.id)).Pairwise (· < ·) ∧
      ∀ node, node ∈ bad ↔
        file.tree.node? node.id = some node ∧ IsBadlyLaidOut file.tree node := by
  refine ⟨file.tree.nodes.toList.filter (isBad file.tree), rfl, ?_, ?_⟩
  · have hsub := (List.filter_sublist (p := isBad file.tree) (l := file.tree.nodes.toList)).map (·.id)
    exact hnumbered.pairwise_id.sublist hsub
  · intro node
    rw [List.mem_filter, isBad_iff hlines, Array.mem_toList_iff]
    have hplace : node ∈ file.tree.nodes ↔ file.tree.node? node.id = some node := by
      constructor
      · intro hmem
        obtain ⟨id, hid⟩ := Array.mem_iff_getElem?.mp hmem
        rw [hnumbered id node hid]
        exact hid
      · exact Array.mem_of_getElem?
    rw [hplace]

def pairInList : Grammar := fun source =>
  let node := ParseTree.inner source
  let token := ParseTree.token source
  node "module" none 0 43
    [node "expression_statement" none 0 42
       [node "assignment" none 0 42
          [node "identifier" (some "left") 0 2 [], token "=" none 3 4,
           node "list" (some "right") 5 42
             [token "[" none 5 6,
              node "tuple" none 11 22
                [token "(" none 11 12, node "integer" none 12 13 [], token "," none 13 14,
                 node "integer" none 20 21 [], token ")" none 21 22],
              token "," none 22 23, node "comment" none 25 33 [], node "integer" none 38 39 [],
              token "," none 39 40, token "]" none 41 42]]]]

theorem violations_badlyLaidOut_of_pairInList : ∃ file,
    SourceFile.read .standard pairInList "pairs.py"
      "xy = [\n    (1,\n     2),  # a pair\n    3,\n]\n".toList = .ok file ∧
    (checker.violations {} file).map (·.anchor) = [some (.node 7 "tuple" ⟨2, 4⟩)] ∧
    file.tree.IsNumbered ∧ (∀ node ∈ file.tree.nodes, node.start.line ≤ node.stop.line) ∧
    ∃ bad : List Node,
      checker.violations {} file = bad.map (.atNode Rule.Catalogue.parametersIndentation) ∧
      (bad.map (·.id)).Pairwise (· < ·) ∧
      ∀ node, node ∈ bad ↔
        file.tree.node? node.id = some node ∧ IsBadlyLaidOut file.tree node := by
  have hbuild : Pipeline.build .standard pairInList
      "xy = [\n    (1,\n     2),  # a pair\n    3,\n]\n".toList = .ok _ := rfl
  have hnumbered := Pipeline.isNumbered_of_build (fun _ hpass => .inl hpass) hbuild
  refine ⟨_, rfl, by decide +kernel, hnumbered, by decide +kernel, ?_⟩
  exact violations_badlyLaidOut {} hnumbered (by decide +kernel)

end Checker.Layout

end StyleCheck
