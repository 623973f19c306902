import StyleCheck.Checker.Builtin
import StyleCheck.Proofs.Scenario.Verdict
import StyleCheck.Proofs.SyntaxTree.Lowering
import StyleCheck.Proofs.Token.Coverage

namespace StyleCheck

theorem Token.line_pos_of_tokenize {source : List Char} {tokens : List Token}
    (h : tokenize source = .ok tokens) : ∀ t ∈ tokens, 0 < t.start.line := by
  obtain ⟨read, s, final, hread, hfinal, rfl⟩ := tokenize_eq_ok_iff.mp h
  obtain ⟨hp, -, rfl⟩ := finish_eq_ok_iff.mp hfinal
  refine List.forall_mem_append.mpr ⟨?_, ?_⟩
  · intro t ht
    have hble := ((tiled_of_linesStep hread hp).between ht).1.1
    rcases Position.ble_iff.mp hble with hlt | ⟨heq, -⟩
    · exact Nat.zero_lt_of_lt hlt
    · exact heq ▸ Nat.one_pos
  · intro t ht
    simp only [impliedBreak, List.mem_append, List.mem_replicate, List.mem_singleton] at ht
    rcases ht with (ht | ⟨-, rfl⟩) | rfl
    · split at ht
      · cases ht
      · rename_i hlast
        rw [List.mem_singleton.mp ht]
        apply List.length_pos_iff.mpr
        intro hnil
        simp [hnil] at hlast
    · exact Nat.succ_pos _
    · exact Nat.succ_pos _

/-- Each node knows its place, and nodes and tokens stand on lines that count from one. -/
structure SourceFile.Located (file : SourceFile) : Prop where
  node : ∀ i node, file.tree.node? i = some node → node.id = i ∧ 0 < node.start.line
  token : ∀ t ∈ file.tokens, 0 < t.start.line

theorem SourceFile.located_of_read {pipeline : Pipeline} {grammar : Grammar} {name : String}
    {source : List Char} {file : SourceFile} (hp : ∀ pass ∈ pipeline, pass.IsHarmless)
    (h : SourceFile.read pipeline grammar name source = .ok file) : file.Located := by
  obtain ⟨tree, htree, h⟩ := Except.bind_eq_ok_iff.mp h
  obtain ⟨tokens, htokens, h⟩ := Except.bind_eq_ok_iff.mp h
  cases h
  constructor
  · intro i node hn
    obtain ⟨info, -, hid, hstart⟩ := Pipeline.node?_of_build hp htree hn
    rw [hstart]
    exact ⟨hid, Position.ofPoint_line_pos info.start⟩
  · exact Token.line_pos_of_tokenize (Except.mapError_eq_ok_iff.mp htokens)

/-- The anchor of a violation is what its rule declares, a node or a token of the file or nothing,
and it has a text where the message of the rule has room for one. -/
structure Violation.WellAnchored (file : SourceFile) (v : Violation) : Prop where
  node : v.rule.target = .node → ∃ id node, file.tree.node? id = some node ∧
    v.anchor = some (.node id node.kind node.start)
  token : v.rule.target = .token → ∃ index token, file.tokens[index]? = some token ∧
    v.anchor = some (.token index (String.ofList token.text) token.start)
  file : v.rule.target = .file → v.anchor = none
  location : v.location = ⟨0, 0⟩ ↔ v.rule.target = .file
  text : v.text.isSome = v.rule.hasPlaceholder

namespace Violation

variable {file : SourceFile} {v : Violation}

theorem wellAnchored_of_file (ht : v.rule.target = .file) (ha : v.anchor = none)
    (hx : v.text.isSome = v.rule.hasPlaceholder) : v.WellAnchored file := by
  have hl : v.location = ⟨0, 0⟩ := location_of_unanchored ha
  constructor
  · simp [ht]
  · simp [ht]
  · exact fun _ => ha
  · exact iff_of_true hl ht
  · exact hx

theorem location_ne_of_line_pos {anchor : Anchor} (ha : v.anchor = some anchor)
    (hl : 0 < anchor.position.line) : v.location ≠ ⟨0, 0⟩ := by
  rw [location_of_anchor ha]
  intro h
  rw [h] at hl
  exact Nat.lt_irrefl 0 hl

theorem wellAnchored_of_node (hf : file.Located) (ht : v.rule.target = .node) {i : Nat} {node : Node}
    (hn : file.tree.node? i = some node) (ha : v.anchor = some (.ofNode node))
    (hx : v.text.isSome = v.rule.hasPlaceholder) : v.WellAnchored file := by
  obtain ⟨rfl, hline⟩ := hf.node i node hn
  constructor
  · exact fun _ => ⟨node.id, node, hn, ha⟩
  · simp [ht]
  · simp [ht]
  · exact iff_of_false (location_ne_of_line_pos ha hline) (by simp [ht])
  · exact hx

theorem wellAnchored_of_token (hf : file.Located) (ht : v.rule.target = .token) {index : Nat}
    {token : Token} (hi : file.tokens[index]? = some token)
    (ha : v.anchor = some (.ofToken index token)) (hx : v.text.isSome = v.rule.hasPlaceholder) :
    v.WellAnchored file := by
  have hline := hf.token token (List.mem_of_getElem? hi)
  constructor
  · simp [ht]
  · exact fun _ => ⟨index, token, hi, ha⟩
  · simp [ht]
  · exact iff_of_false (location_ne_of_line_pos ha hline) (by simp [ht])
  · exact hx

theorem WellAnchored.isUnanchored (h : v.WellAnchored file) : v.isUnanchored = false := by
  have hl := h.location
  have hfile : v.rule.target = .file → v.isUnanchored = false := by
    intro ht
    simp [Violation.isUnanchored, ht]
  have hother : v.rule.target ≠ .file → ∀ anchor, v.anchor = some anchor →
      v.isUnanchored = false := by
    intro ht anchor ha
    have hne := mt hl.mp ht
    simp [Violation.isUnanchored, ha, hne]
  cases ht : v.rule.target with
  | file => exact hfile ht
  | node =>
    obtain ⟨id, node, -, ha⟩ := h.node ht
    exact hother (by simp [ht]) _ ha
  | token =>
    obtain ⟨index, token, -, ha⟩ := h.token ht
    exact hother (by simp [ht]) _ ha

end Violation

namespace Checker

variable {file : SourceFile} {settings : Settings}

theorem forall_mem_ite {P : Violation → Prop} {p : Prop} [Decidable p] {vs ws : List Violation}
    (hv : ∀ v ∈ vs, P v) (hw : ∀ v ∈ ws, P v) : ∀ v ∈ if p then vs else ws, P v := by
  split
  · exact hv
  · exact hw

theorem ModuleName.wellAnchored_report {rule : Rule} (ht : rule.target = .file)
    (stem : List Char) : (report rule stem).WellAnchored file := by
  unfold report
  split
  · rename_i hp
    exact Violation.wellAnchored_of_file ht rfl hp.symm
  · rename_i hp
    exact Violation.wellAnchored_of_file ht rfl (Bool.eq_false_iff.mpr hp).symm

theorem ModuleName.wellAnchored :
    ∀ v ∈ checker.violations settings file, v.WellAnchored file := by
  simp only [checker]
  split
  · simp
  · rename_i stem _
    have hreport : ∀ rule : Rule, rule.target = .file →
        ∀ v ∈ [report rule stem], v.WellAnchored file :=
      fun rule ht => List.forall_mem_singleton.mpr (wellAnchored_report ht stem)
    have hnone : ∀ v ∈ ([] : List Violation), v.WellAnchored file := by simp
    have hlong : ∀ v ∈ [((Violation.atFile Rule.Catalogue.tooLongName).withText
        (String.ofList stem)).withBaseline (toString settings.maxNameLength)],
          v.WellAnchored file := by
      have hp : Rule.Catalogue.tooLongName.hasPlaceholder = true := by decide
      exact List.forall_mem_singleton.mpr (Violation.wellAnchored_of_file rfl rfl hp.symm)
    refine forall_mem_ite (hreport _ rfl) (forall_mem_ite
      (forall_mem_ite hnone (hreport _ rfl)) ?_)
    simp only [ordinaryViolations, List.forall_mem_append]
    exact ⟨⟨⟨⟨forall_mem_ite (hreport _ rfl) hnone, forall_mem_ite hlong hnone⟩,
      forall_mem_ite hnone (hreport _ rfl)⟩, forall_mem_ite (hreport _ rfl) hnone⟩,
      forall_mem_ite (hreport _ rfl) hnone⟩

theorem Layout.wellAnchored (hf : file.Located) :
    ∀ v ∈ checker.violations settings file, v.WellAnchored file := by
  intro v hv
  obtain ⟨node, hnode, rfl⟩ := List.mem_map.mp hv
  have hmem := (List.mem_filter.mp hnode).1
  obtain ⟨i, hi⟩ := List.mem_iff_getElem?.mp hmem
  rw [Array.getElem?_toList] at hi
  have hp : Rule.Catalogue.parametersIndentation.hasPlaceholder = false := by decide
  exact Violation.wellAnchored_of_node hf rfl hi rfl hp.symm

theorem exists_id_of_mem_children {tree : SyntaxTree} {node child : Node}
    (h : child ∈ tree.children node) : ∃ i, tree.node? i = some child := by
  obtain ⟨i, -, hi⟩ := List.mem_filterMap.mp h
  exact ⟨i, hi⟩

theorem Unpacking.exists_id_of_target {tree : SyntaxTree} {node target : Node}
    (h : target? tree node = some target) : ∃ i, tree.node? i = some target := by
  have hchild : ∀ {field found}, tree.child? node field = some found →
      ∃ i, tree.node? i = some found :=
    fun hfound => exists_id_of_mem_children (List.mem_of_find?_eq_some hfound)
  unfold target? at h
  split at h
  · obtain ⟨hfound, -⟩ := Option.filter_eq_some_iff.mp h
    exact hchild hfound
  split at h
  · obtain ⟨aliased, hfound, halias⟩ := Option.bind_eq_some_iff.mp h
    unfold aliasTarget? at halias
    split at halias
    · cases halias
      exact hchild hfound
    split at halias
    · rename_i honly
      split at halias
      · cases halias
        have hmem : target ∈ tree.elements aliased := by simp [honly]
        exact exists_id_of_mem_children (List.mem_filter.mp hmem).1
      · cases halias
    · cases halias
  · cases h

theorem Unpacking.wellAnchored (hf : file.Located) :
    ∀ v ∈ checker.violations settings file, v.WellAnchored file := by
  intro v hv
  obtain ⟨node, -, hv⟩ := List.mem_filterMap.mp hv
  obtain ⟨target, htarget, hv⟩ := Option.bind_eq_some_iff.mp hv
  obtain ⟨i, hi⟩ := exists_id_of_target htarget
  simp only at hv
  split at hv
  · cases hv
    have hp : Rule.Catalogue.tooLongTupleUnpack.hasPlaceholder = true := by decide
    exact Violation.wellAnchored_of_node hf rfl hi rfl hp.symm
  · cases hv

theorem NumberSpelling.wellAnchored (hf : file.Located) :
    ∀ v ∈ checker.violations settings file, v.WellAnchored file := by
  intro v hv
  obtain ⟨⟨token, index⟩, hmem, hv⟩ := List.mem_flatMap.mp hv
  have hi : file.tokens[index]? = some token := List.mem_zipIdx_iff_getElem?.mp hmem
  have hpartial : Rule.Catalogue.partialFloat.hasPlaceholder = true := by decide
  have hsuffix : Rule.Catalogue.badNumberSuffix.hasPlaceholder = true := by decide
  rcases NumberSpelling.eq_of_mem_tokenViolations hv with rfl | rfl
  · exact Violation.wellAnchored_of_token hf rfl hi rfl hpartial.symm
  · exact Violation.wellAnchored_of_token hf rfl hi rfl hsuffix.symm

theorem Comments.wellAnchored (hf : file.Located) :
    ∀ v ∈ checker.violations settings file, v.WellAnchored file := by
  intro v hv
  obtain ⟨⟨token, index⟩, hmem, hv⟩ := List.mem_filterMap.mp hv
  have hi : file.tokens[index]? = some token := List.mem_zipIdx_iff_getElem?.mp hmem
  simp only at hv
  split at hv
  · simp only [commentViolation?] at hv
    split at hv
    · split at hv
      · cases hv
      · cases hv
        have hp : Rule.Catalogue.emptyComment.hasPlaceholder = false := by decide
        exact Violation.wellAnchored_of_token hf rfl hi rfl hp.symm
    · split at hv
      · cases hv
        have hp : Rule.Catalogue.wrongMagicComment.hasPlaceholder = true := by decide
        exact Violation.wellAnchored_of_token hf rfl hi rfl hp.symm
      · cases hv
  · cases hv

theorem checkRules_of_wellAnchored {violations : List Violation}
    (h : ∀ v ∈ violations, v.WellAnchored file) :
    checkRules violations (violations.map (·.rule)) [] = .ok () := by
  have hkept : kept [] violations = violations := by
    apply List.filter_eq_self.mpr
    intro v _
    rfl
  apply checkRules_eq_ok_iff.mpr
  rw [hkept, List.map_map]
  exact ⟨rfl, fun v hv => (h v hv).isUnanchored⟩

theorem violations_wellAnchored {checker : Checker} (hc : checker ∈ all) (settings : Settings)
    {pipeline : Pipeline} (hp : ∀ pass ∈ pipeline, pass ∈ Pipeline.standard) {grammar : Grammar}
    {source : List Char} {name : String} (h : SourceFile.read pipeline grammar name source = .ok file) :
    (∀ v ∈ checker.violations settings file, v.WellAnchored file) ∧
      checkRules (checker.violations settings file)
        ((checker.violations settings file).map (·.rule)) [] = .ok () := by
  have hf := SourceFile.located_of_read (fun pass hpass => .inl (hp pass hpass)) h
  have hall : ∀ v ∈ checker.violations settings file, v.WellAnchored file := by
    simp only [all, List.mem_cons, List.not_mem_nil, or_false] at hc
    rcases hc with rfl | rfl | rfl | rfl | rfl
    · exact ModuleName.wellAnchored
    · exact Layout.wellAnchored hf
    · exact Unpacking.wellAnchored hf
    · exact NumberSpelling.wellAnchored hf
    · exact Comments.wellAnchored hf
  exact ⟨hall, checkRules_of_wellAnchored hall⟩

def pairAssignment : Grammar := fun source =>
  let node := ParseTree.inner source
  let token := ParseTree.token source
  node "module" none 0 9
    [node "expression_statement" none 0 8
       [node "assignment" none 0 8
          [node "pattern_list" (some "left") 0 4
             [node "identifier" none 0 1 [], token "," none 1 2, node "identifier" none 3 4 []],
           token "=" none 5 6, node "identifier" (some "right") 7 8 []]]]

theorem violations_wellAnchored_of_pair : ∃ file,
    SourceFile.read .standard pairAssignment "pair.py" "a, b = x\n".toList = .ok file ∧
    (Unpacking.checker.violations { maxTupleUnpackLength := 1 } file).map (·.anchor) =
      [some (.node 3 "tuple" ⟨1, 0⟩)] ∧
    (∀ v ∈ Unpacking.checker.violations { maxTupleUnpackLength := 1 } file,
      v.WellAnchored file) ∧
    checkRules (Unpacking.checker.violations { maxTupleUnpackLength := 1 } file)
      ((Unpacking.checker.violations { maxTupleUnpackLength := 1 } file).map (·.rule)) [] =
        .ok () := by
  have h : SourceFile.read .standard pairAssignment "pair.py" "a, b = x\n".toList = .ok _ := rfl
  have hc : Unpacking.checker ∈ all := by simp [all]
  refine ⟨_, h, ?_, violations_wellAnchored hc _ (fun _ hpass => hpass) h⟩
  decide +kernel

end Checker

end StyleCheck
