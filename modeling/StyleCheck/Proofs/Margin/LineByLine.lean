import StyleCheck.Proofs.Margin.LongestMargin
import StyleCheck.Proofs.Text.LineChanges

namespace StyleCheck.Margin

open Text

variable {line margin text : List Char}

def shared? : List (List Char) → Option (List Char)
  | [] => some []
  | first :: rest => rest.foldlM common? first

theorem flatMap_indentations_bare (text : List Char) :
    ((lines text).map bare).flatMap indentations = (lines text).flatMap indentations := by
  rw [List.flatMap_map]
  simp only [indentations_bare]

theorem margin?_eq (text : List Char) : margin? text = shared? ((lines text).flatMap indentations) := by
  rw [margin?, map_indentation, flatMap_indentations_bare]
  cases (lines text).flatMap indentations <;> rfl

theorem isLongestCommon_of_shared? {texts : List (List Char)} (h : shared? texts = some margin)
    (hne : texts ≠ []) : IsLongestCommon margin texts := by
  cases texts with
  | nil => exact absurd rfl hne
  | cons first rest => exact isLongestCommon_of_foldlM h

theorem indentations_of_visible (h : isBlankLine line = false) :
    indentations line = [indentation line] := by
  rw [indentations, h, if_neg Bool.false_ne_true]

theorem indentations_of_blank (h : isBlankLine line = true) : indentations line = [] :=
  if_pos h

theorem withoutMargin_of_visible (h : isBlankLine line = false) (margin : List Char) :
    withoutMargin margin line = line.drop margin.length := by
  rw [withoutMargin, h, if_neg Bool.false_ne_true]

theorem withoutMargin_of_blank (h : isBlankLine line = true) (margin : List Char) :
    withoutMargin margin line = line.filter (· == '\n') :=
  if_pos h

def IsMarginOf (margin line : List Char) : Prop :=
  isBlankLine line = false → margin <+: indentation line

namespace IsMarginOf

variable (h : IsMarginOf margin line)
include h

theorem append_withoutMargin (hv : isBlankLine line = false) :
    margin ++ withoutMargin margin line = line := by
  rw [withoutMargin_of_visible hv, List.prefix_iff_eq_append.mp (isPrefix_of_indentation (h hv))]

theorem isBlankLine_margin (hv : isBlankLine line = false) : isBlankLine margin = true :=
  isBlankLine_of_isPrefix (h hv)

theorem isBlankLine_withoutMargin :
    isBlankLine (withoutMargin margin line) = isBlankLine line := by
  cases hline : isBlankLine line with
  | true =>
    rw [withoutMargin_of_blank hline, isBlankLine_iff]
    intro c hc
    exact isBlankLine_iff.mp hline c (List.mem_of_mem_filter hc)
  | false =>
    have hleft := isBlankLine_unindent (h hline) hline
    rwa [unindent_of_visible hline, ← withoutMargin_of_visible hline] at hleft

end IsMarginOf

section Dedent

variable (hm : margin? text = some margin)
include hm

theorem isMarginOf_of_mem_lines (hl : line ∈ lines text) : IsMarginOf margin line := by
  intro hv
  rw [margin?_eq] at hm
  have hmem := mem_indentations_iff.mpr ⟨line, hl, hv, rfl⟩
  exact (isLongestCommon_of_shared? hm (List.ne_nil_of_mem hmem)).isPrefix _ hmem

theorem endsAlike_withoutMargin (hl : line ∈ lines text) :
    EndsAlike line (withoutMargin margin line) := by
  obtain ⟨body, hbody, rfl | rfl⟩ := exists_body_of_mem_lines hl
  · rw [withoutMargin_of_notMem hbody]
    exact .last hbody (notMem_unindent hbody)
  · have hstart : isBlankLine body = false → margin <+: body := by
      intro hv
      have hfed : isBlankLine (body ++ ['\n']) = false := by
        rw [isBlankLine_append, hv]
        rfl
      apply isPrefix_of_indentation
      rw [← indentation_append_of_visible hv ['\n']]
      exact isMarginOf_of_mem_lines hm hl hfed
    rw [withoutMargin_feed hbody hstart]
    exact .feed hbody (notMem_unindent hbody)

theorem endsAlike_map_withoutMargin :
    List.Forall₂ EndsAlike (lines text) ((lines text).map (withoutMargin margin)) := by
  rw [List.forall₂_map_right_iff, List.forall₂_same]
  intro line hl
  exact endsAlike_withoutMargin hm hl

theorem isPrefix_lines_withoutMargin :
    lines ((lines text).flatMap (withoutMargin margin)) <+:
      (lines text).map (withoutMargin margin) :=
  lines_flatten_isPrefix (endsAlike_map_withoutMargin hm)

theorem flatMap_lines_withoutMargin {β : Type} {f : List Char → List β} (hf : f [] = []) :
    (lines ((lines text).flatMap (withoutMargin margin))).flatMap f =
      (lines text).flatMap fun line => f (withoutMargin margin line) := by
  rw [← List.flatMap_map (withoutMargin margin)]
  exact flatMap_lines_flatten hf (endsAlike_map_withoutMargin hm)

end Dedent

end StyleCheck.Margin
