import StyleCheck.Proofs.Margin.LineByLine

namespace StyleCheck

namespace Text

def terminator (line : List Char) : List Char :=
  if ['\r', '\n'] <:+ line then ['\r', '\n'] else if ['\n'] <:+ line then ['\n'] else []

/-- As many line feeds, and each line ends as the one at its place did. -/
structure KeepsTerminators (text out : List Char) : Prop where
  count : out.count '\n' = text.count '\n'
  isPrefix : (lines out).map terminator <+: (lines text).map terminator

theorem terminator_of_notMem {body : List Char} (h : '\n' ∉ body) : terminator body = [] := by
  have hfeed : ¬ ['\n'] <:+ body := fun hs => h (hs.subset (List.mem_singleton_self '\n'))
  have hreturn : ¬ ['\r', '\n'] <:+ body := fun hs => h (hs.subset (by simp))
  rw [terminator, if_neg hreturn, if_neg hfeed]

theorem terminator_feed (body : List Char) :
    terminator (body ++ ['\n']) = ['\r', '\n'] ∨ terminator (body ++ ['\n']) = ['\n'] := by
  unfold terminator
  split
  · exact .inl rfl
  · right
    exact if_pos (List.suffix_append body ['\n'])

theorem terminator_terminator (line : List Char) :
    terminator (terminator line) = terminator line := by
  rw [terminator.eq_def line]
  split_ifs <;> decide

end Text

namespace Margin

open Text

variable {line margin text : List Char}

theorem terminator_append (h : isBlankLine line = false) (start : List Char) :
    terminator (start ++ line) = terminator line := by
  have hsuffix : ∀ tail, isBlankLine tail = true → (tail <:+ start ++ line ↔ tail <:+ line) := by
    intro tail htail
    constructor
    · intro hs
      rcases List.suffix_or_suffix_of_suffix hs (List.suffix_append start line) with hs | hs
      · exact hs
      · rw [isBlankLine_iff] at htail
        have hblank := isBlankLine_iff.mpr fun c hc => htail c (hs.subset hc)
        rw [h] at hblank
        cases hblank
    · intro hs
      exact hs.trans (List.suffix_append start line)
  rw [terminator, terminator]
  simp only [hsuffix ['\r', '\n'] rfl, hsuffix ['\n'] rfl]

theorem withoutMargin_of_blank_mem (hl : line ∈ lines text) (hb : isBlankLine line = true)
    (margin : List Char) : withoutMargin margin line =
      if terminator line = ['\r', '\n'] then ['\n'] else terminator line := by
  rw [withoutMargin_of_blank hb]
  obtain ⟨body, hbody, rfl | rfl⟩ := exists_body_of_mem_lines hl
  · rw [filter_feed_of_notMem hbody, terminator_of_notMem hbody]
    rfl
  · rw [List.filter_append, filter_feed_of_notMem hbody]
    rcases terminator_feed body with h | h
    · rw [h]
      rfl
    · rw [h]
      rfl

theorem terminator_withoutMargin_iff (hm : margin? text = some margin) (hl : line ∈ lines text) :
    terminator (withoutMargin margin line) = terminator line ↔
      (isBlankLine line = true → terminator line ≠ ['\r', '\n']) := by
  cases hline : isBlankLine line with
  | true =>
    rw [withoutMargin_of_blank_mem hl hline]
    split
    · rename_i hreturn
      rw [hreturn]
      decide
    · rename_i hreturn
      exact iff_of_true (terminator_terminator line) fun _ => hreturn
  | false =>
    have hmargin := isMarginOf_of_mem_lines hm hl
    have hleft := hmargin.isBlankLine_withoutMargin
    rw [hline] at hleft
    refine iff_of_true ?_ nofun
    rw [← terminator_append hleft margin, hmargin.append_withoutMargin hline]

variable (hm : margin? text = some margin)
include hm

theorem count_withoutMargin :
    ((lines text).flatMap (withoutMargin margin)).count '\n' = text.count '\n' := by
  rw [List.flatMap_def]
  exact count_flatten_of_endsAlike (endsAlike_map_withoutMargin hm)

theorem keepsTerminators_iff :
    KeepsTerminators text ((lines text).flatMap (withoutMargin margin)) ↔
      ∀ line ∈ lines text, terminator (withoutMargin margin line) = terminator line := by
  constructor
  · intro h line hl
    obtain ⟨n, hn⟩ := exists_lines_flatten (endsAlike_map_withoutMargin hm)
    obtain ⟨i, hi⟩ := List.mem_iff_getElem?.mp hl
    have hplace := congrArg (·[i]?) hn
    simp only [List.getElem?_map, hi, Option.map_some] at hplace
    rw [← List.flatMap_def] at hplace
    rcases Nat.lt_or_ge i (lines ((lines text).flatMap (withoutMargin margin))).length with hlt | hge
    · rw [List.getElem?_append_left hlt] at hplace
      obtain ⟨others, hothers⟩ := h.isPrefix
      have hends := congrArg (·[i]?) hothers
      simp only [List.getElem?_append_left (List.length_map terminator ▸ hlt), List.getElem?_map,
        hplace, hi, Option.map_some] at hends
      exact Option.some.inj hends
    · rw [List.getElem?_append_right hge] at hplace
      have hleft := (List.mem_replicate.mp (List.mem_of_getElem? hplace)).2
      have hcount := (endsAlike_withoutMargin hm hl).count_eq
      rw [hleft, List.count_nil] at hcount
      rw [hleft, terminator_of_notMem (List.count_eq_zero.mp hcount.symm)]
      exact terminator_of_notMem List.not_mem_nil
  · intro h
    refine ⟨count_withoutMargin hm, ?_⟩
    have hsame : ((lines text).map (withoutMargin margin)).map terminator =
        (lines text).map terminator := by
      rw [List.map_map]
      exact List.map_congr_left h
    rw [← hsame]
    exact (isPrefix_lines_withoutMargin hm).map terminator

end Margin

/-- Line ends are kept, but for those of blank lines, which lose their carriage returns. -/
theorem dedent?_keeps_terminators_iff {text out : List Char} (h : dedent? text = some out) :
    out.count '\n' = text.count '\n' ∧
    (Text.KeepsTerminators text out ↔ ∀ line ∈ Text.lines text,
      Margin.isBlankLine line = true → Text.terminator line ≠ ['\r', '\n']) := by
  obtain ⟨margin, hm, rfl⟩ := Option.map_eq_some_iff.mp h
  refine ⟨Margin.count_withoutMargin hm, ?_⟩
  rw [Margin.keepsTerminators_iff hm]
  exact forall₂_congr fun line hl => Margin.terminator_withoutMargin_iff hm hl

theorem dedent?_keeps_mixed_terminators :
    let text := "  x = 1\r\n \n\n  y = 2\r\n   ".toList
    let out := "x = 1\r\n\n\ny = 2\r\n".toList
    dedent? text = some out ∧ Text.KeepsTerminators text out := by
  intro text out
  have h : dedent? text = some out := by decide +kernel
  exact ⟨h, (dedent?_keeps_terminators_iff h).2.mpr (by decide +kernel)⟩

theorem not_dedent?_keeps_blank_terminator :
    let text := "x = 1\r\n\r\ny = 2\r\n".toList
    let out := "x = 1\r\n\ny = 2\r\n".toList
    dedent? text = some out ∧ ¬ Text.KeepsTerminators text out := by
  intro text out
  have h : dedent? text = some out := by decide +kernel
  refine ⟨h, fun hkeeps => ?_⟩
  have hstart : (Text.lines out).map Text.terminator <+: (Text.lines text).map Text.terminator :=
    hkeeps.isPrefix
  exact absurd hstart (by decide +kernel)

end StyleCheck
