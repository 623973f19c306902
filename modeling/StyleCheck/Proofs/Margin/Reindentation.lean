import StyleCheck.Host
import StyleCheck.Proofs.Margin.LineByLine

namespace StyleCheck

namespace Margin

open Text

variable {line margin text indent : List Char}

section Shift

theorem common?_append (start xs ys : List Char) :
    common? (start ++ xs) (start ++ ys) = (common? xs ys).map (start ++ ·) := by
  induction start with
  | nil => simp
  | cons c start ih =>
    rw [List.cons_append, List.cons_append, common?, if_pos rfl, ih, Option.map_map]
    rfl

theorem foldlM_common?_append (start first : List Char) (rest : List (List Char)) :
    (rest.map (start ++ ·)).foldlM common? (start ++ first) =
      (rest.foldlM common? first).map (start ++ ·) := by
  induction rest generalizing first with
  | nil => rfl
  | cons next rest ih =>
    rw [List.map_cons, List.foldlM_cons, List.foldlM_cons, common?_append]
    cases common? first next with
    | none => rfl
    | some both => exact ih both

theorem shared?_map_append (start : List Char) {texts : List (List Char)} (h : texts ≠ []) :
    shared? (texts.map (start ++ ·)) = (shared? texts).map (start ++ ·) := by
  cases texts with
  | nil => exact absurd rfl h
  | cons first rest => exact foldlM_common?_append start first rest

end Shift

section Indent

def indentLine (indent line : List Char) : List Char :=
  if isBlankLine line then line else indent ++ line

def indentText (indent text : List Char) : List Char :=
  (lines text).flatMap (indentLine indent)

theorem indentLine_of_visible (h : isBlankLine line = false) (indent : List Char) :
    indentLine indent line = indent ++ line := by
  rw [indentLine, h, if_neg Bool.false_ne_true]

theorem indentLine_of_blank (h : isBlankLine line = true) (indent : List Char) :
    indentLine indent line = line :=
  if_pos h

theorem isBlankLine_indentLine (indent line : List Char) :
    isBlankLine (indentLine indent line) = isBlankLine line := by
  cases hline : isBlankLine line with
  | true => rw [indentLine_of_blank hline, hline]
  | false => rw [indentLine_of_visible hline, isBlankLine_append, hline, Bool.and_false]

theorem endsAlike_indentLine (h : '\n' ∉ indent) (hl : line ∈ lines text) :
    EndsAlike line (indentLine indent line) := by
  have hindented : ∀ body, '\n' ∉ body → '\n' ∉ indent ++ body := by
    intro body hbody hm
    exact (List.mem_append.mp hm).elim h hbody
  obtain ⟨body, hbody, rfl | rfl⟩ := exists_body_of_mem_lines hl
  · refine .last hbody ?_
    unfold indentLine
    split
    · exact hbody
    · exact hindented _ hbody
  · unfold indentLine
    split
    · exact .feed hbody hbody
    · rw [← List.append_assoc]
      exact .feed hbody (hindented _ hbody)

theorem lines_indentText (h : '\n' ∉ indent) (text : List Char) :
    lines (indentText indent text) = (lines text).map (indentLine indent) := by
  have hends : List.Forall₂ EndsAlike (lines text) ((lines text).map (indentLine indent)) := by
    rw [List.forall₂_map_right_iff, List.forall₂_same]
    intro line hl
    exact endsAlike_indentLine h hl
  rw [indentText, List.flatMap_def, lines_flatten hends]
  intro hnil
  obtain ⟨line, hl, hline⟩ := List.mem_map.mp hnil
  have hne : line ≠ [] := ne_of_mem_of_not_mem hl (nil_notMem_lines text)
  unfold indentLine at hline
  split at hline
  · exact hne hline
  · exact hne (List.append_eq_nil_iff.mp hline).2

theorem indentations_indentLine (h : isBlankLine indent = true) (line : List Char) :
    indentations (indentLine indent line) = (indentations line).map (indent ++ ·) := by
  cases hline : isBlankLine line with
  | true => rw [indentLine_of_blank hline, indentations_of_blank hline, List.map_nil]
  | false =>
    have hindented := isBlankLine_indentLine indent line
    rw [hline] at hindented
    rw [indentations_of_visible hindented, indentLine_of_visible hline, indentation_append h,
      indentations_of_visible hline, List.map_singleton]

theorem withoutMargin_indentLine (indent margin line : List Char) :
    withoutMargin (indent ++ margin) (indentLine indent line) = withoutMargin margin line := by
  cases hline : isBlankLine line with
  | true =>
    rw [indentLine_of_blank hline, withoutMargin_of_blank hline, withoutMargin_of_blank hline]
  | false =>
    have hindented := isBlankLine_indentLine indent line
    rw [hline] at hindented
    rw [withoutMargin_of_visible hindented, indentLine_of_visible hline,
      withoutMargin_of_visible hline, List.length_append, List.drop_length_add_append]

theorem indentText_of_blank (h : (lines text).flatMap indentations = []) (indent : List Char) :
    indentText indent text = text := by
  have hlines : ∀ line ∈ lines text, indentLine indent line = id line := by
    intro line hl
    refine indentLine_of_blank ?_ indent
    by_contra hline
    have hnil := List.flatMap_eq_nil_iff.mp h line hl
    rw [indentations_of_visible (Bool.eq_false_iff.mpr hline)] at hnil
    cases hnil
  rw [indentText, List.flatMap_congr hlines, List.flatMap_id, flatten_lines]

theorem margin?_indentText (hfeed : '\n' ∉ indent) (hblank : isBlankLine indent = true)
    (h : (lines text).flatMap indentations ≠ []) :
    margin? (indentText indent text) = (margin? text).map (indent ++ ·) := by
  have hindents : ((lines text).map (indentLine indent)).flatMap indentations =
      ((lines text).flatMap indentations).map (indent ++ ·) := by
    rw [List.flatMap_map, List.map_flatMap]
    simp only [indentations_indentLine hblank]
  rw [margin?_eq, margin?_eq, lines_indentText hfeed, hindents, shared?_map_append indent h]

end Indent

section Again

theorem indentations_withoutMargin (h : IsMarginOf margin line) :
    (indentations (withoutMargin margin line)).map (margin ++ ·) = indentations line := by
  have hleft := h.isBlankLine_withoutMargin
  cases hline : isBlankLine line with
  | true =>
    rw [hline] at hleft
    rw [indentations_of_blank hleft, indentations_of_blank hline, List.map_nil]
  | false =>
    rw [hline] at hleft
    rw [indentations_of_visible hleft, indentations_of_visible hline, List.map_singleton,
      ← indentation_append (h.isBlankLine_margin hline), h.append_withoutMargin hline]

theorem withoutMargin_nil_withoutMargin (h : IsMarginOf margin line) :
    withoutMargin [] (withoutMargin margin line) = withoutMargin margin line := by
  have hleft := h.isBlankLine_withoutMargin
  cases hline : isBlankLine line with
  | true =>
    rw [hline] at hleft
    rw [withoutMargin_of_blank hleft, withoutMargin_of_blank hline]
    simp only [List.filter_filter, Bool.and_self]
  | false =>
    rw [hline] at hleft
    rw [withoutMargin_of_visible hleft]
    rfl

variable (hm : margin? text = some margin)
include hm

theorem margin?_withoutMargin :
    margin? ((lines text).flatMap (withoutMargin margin)) = some [] := by
  have hindents : (((lines text).flatMap fun line =>
      indentations (withoutMargin margin line)).map (margin ++ ·)) =
        (lines text).flatMap indentations := by
    rw [List.map_flatMap]
    refine List.flatMap_congr fun line hl => ?_
    exact indentations_withoutMargin (isMarginOf_of_mem_lines hm hl)
  rw [margin?_eq, flatMap_lines_withoutMargin hm rfl]
  -- What these indentations share beyond the margin would be a part of the margin.
  rw [margin?_eq, ← hindents] at hm
  by_cases hnil : (lines text).flatMap (fun line => indentations (withoutMargin margin line)) = []
  · rw [hnil]
    rfl
  · rw [shared?_map_append margin hnil] at hm
    obtain ⟨rest, hrest, happend⟩ := Option.map_eq_some_iff.mp hm
    rw [hrest, List.append_right_eq_self.mp happend]

theorem flatMap_withoutMargin_nil :
    (lines ((lines text).flatMap (withoutMargin margin))).flatMap (withoutMargin []) =
      (lines text).flatMap (withoutMargin margin) := by
  have hlines : ∀ line ∈ lines ((lines text).flatMap (withoutMargin margin)),
      withoutMargin [] line = id line := by
    intro line hl
    obtain ⟨before, hbefore, rfl⟩ :=
      List.mem_map.mp ((isPrefix_lines_withoutMargin hm).subset hl)
    exact withoutMargin_nil_withoutMargin (isMarginOf_of_mem_lines hm hbefore)
  rw [List.flatMap_congr hlines, List.flatMap_id, flatten_lines]

end Again

end Margin

theorem dedent?_of_dedent? {text out : List Char} (h : dedent? text = some out) :
    dedent? out = some out := by
  obtain ⟨margin, hm, rfl⟩ := Option.map_eq_some_iff.mp h
  rw [dedent?, Margin.margin?_withoutMargin hm, Option.map_some, Margin.flatMap_withoutMargin_nil hm]

theorem dedent?_indentText {indent : List Char} (hfeed : '\n' ∉ indent)
    (hblank : Margin.isBlankLine indent = true) (text : List Char) :
    dedent? (Margin.indentText indent text) = dedent? text := by
  by_cases hnil : (Text.lines text).flatMap Margin.indentations = []
  · rw [Margin.indentText_of_blank hnil]
  · rw [dedent?, dedent?, Margin.margin?_indentText hfeed hblank hnil, Option.map_map,
      Margin.lines_indentText hfeed]
    congr 1
    funext margin
    rw [Function.comp_apply, List.flatMap_map]
    simp only [Margin.withoutMargin_indentLine]

theorem Preparation.prepare_of_prepare {p : Preparation} {grammar : Grammar}
    {text source : List Char} (h : p.prepare grammar text = some (.ok (.ready source))) :
    p.prepare grammar source = some (.ok (.ready source)) := by
  obtain ⟨out, hout, hcheck⟩ := Option.map_eq_some_iff.mp h
  cases eq_of_check hcheck
  rw [prepare, dedent?_of_dedent? hout, Option.map_some, hcheck]

theorem dedent?_settles (text : List Char) :
    (∀ out, dedent? text = some out → dedent? out = some out) ∧
    (∀ indent : List Char, (∀ c ∈ indent, c = ' ' ∨ c = '\t') →
      dedent? (Margin.indentText indent text) = dedent? text) ∧
    ∀ (p : Preparation) (grammar : Grammar) (source : List Char),
      p.prepare grammar text = some (.ok (.ready source)) →
        p.prepare grammar source = some (.ok (.ready source)) := by
  refine ⟨fun out h => dedent?_of_dedent? h, ?_, fun p grammar source h => p.prepare_of_prepare h⟩
  intro indent h
  have hfeed : '\n' ∉ indent := fun hm => by simpa using h '\n' hm
  have hblank : Margin.isBlankLine indent = true := by
    rw [Margin.isBlankLine_iff]
    intro c hc
    rcases h c hc with rfl | rfl <;> decide
  exact dedent?_indentText hfeed hblank text

def nestedBlock : Grammar := fun source =>
  let node := ParseTree.inner source
  let token := ParseTree.token source
  node "module" none 0 16
    [node "if_statement" none 0 15
       [token "if" none 0 2, node "identifier" (some "condition") 3 4 [], token ":" none 4 5,
        node "block" (some "consequence") 10 15
          [node "expression_statement" none 10 15
             [node "assignment" none 10 15
                [node "identifier" (some "left") 10 11 [], token "=" none 12 13,
                 node "integer" (some "right") 14 15 []]]]]]

theorem dedent?_settles_nested_block :
    let text := "  if x:\r\n \n    y = 1\n   ".toList
    let out := "if x:\r\n\n  y = 1\n".toList
    dedent? text = some out ∧ dedent? out = some out ∧
      dedent? (Margin.indentText "\t ".toList text) = some out ∧
      Preparation.prepare {} nestedBlock out = some (.ok (.ready out)) := by
  intro text out
  have h : dedent? text = some out := by decide +kernel
  obtain ⟨hagain, hindent, hready⟩ := dedent?_settles text
  refine ⟨h, hagain out h, ?_, ?_⟩
  · rw [hindent "\t ".toList (by simp), h]
  · apply hready {} nestedBlock out
    rw [Preparation.prepare, h]
    rfl

end StyleCheck
