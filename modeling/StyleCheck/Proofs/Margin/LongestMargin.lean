import Mathlib.Data.List.Forall2
import StyleCheck.Margin
import StyleCheck.Proofs.Text.Pieces

/-!
What taking off the margin leaves of each piece of a text. The margin is the longest common start of
the indentations, though they are compared pair by pair, and the lines that are compared and those
that are cut are the same pieces.
-/

namespace StyleCheck

namespace Margin

open Text

variable {line tail body margin other : List Char}

theorem isBlankLine_iff : isBlankLine line = true ↔ ∀ c ∈ line, isBlank c = true :=
  List.all_eq_true

theorem isBlankLine_eq_false_iff : isBlankLine line = false ↔ ∃ c ∈ line, isBlank c = false := by
  simp [isBlankLine]

theorem isBlankLine_append (line tail : List Char) :
    isBlankLine (line ++ tail) = (isBlankLine line && isBlankLine tail) :=
  List.all_append

theorem isBlankLine_of_isPrefix (h : margin <+: indentation line) : isBlankLine margin = true := by
  rw [isBlankLine_iff]
  intro c hc
  exact List.all_eq_true.mp List.all_takeWhile c (h.subset hc)

theorem isBlankLine_indentation (line : List Char) : isBlankLine (indentation line) = true :=
  isBlankLine_of_isPrefix List.prefix_rfl

theorem indentation_append_trimStart (line : List Char) :
    indentation line ++ trimStart line = line :=
  List.takeWhile_append_dropWhile

theorem isPrefix_of_indentation (h : margin <+: indentation line) : margin <+: line :=
  h.trans (List.takeWhile_prefix isBlank)

theorem indentation_append (h : isBlankLine line = true) (tail : List Char) :
    indentation (line ++ tail) = line ++ indentation tail :=
  List.takeWhile_append_of_pos (isBlankLine_iff.mp h)

theorem indentation_append_of_visible (h : isBlankLine line = false) (tail : List Char) :
    indentation (line ++ tail) = indentation line := by
  induction line with
  | nil => cases h
  | cons c line ih =>
    rw [indentation, indentation, List.cons_append, List.takeWhile_cons, List.takeWhile_cons]
    cases hc : isBlank c with
    | false => rfl
    | true =>
      have hline : isBlankLine line = false := by
        rwa [isBlankLine, List.all_cons, hc, Bool.true_and] at h
      exact congrArg (c :: ·) (ih hline)

section Indentations

def indentations (line : List Char) : List (List Char) :=
  if isBlankLine line then [] else [indentation line]

theorem map_indentation (ls : List (List Char)) :
    (ls.filter (!isBlankLine ·)).map indentation = ls.flatMap indentations := by
  induction ls with
  | nil => rfl
  | cons line ls ih =>
    rw [List.filter_cons, List.flatMap_cons, ← ih, indentations]
    cases isBlankLine line <;> rfl

theorem indentations_append (h : isBlankLine tail = true) (line : List Char) :
    indentations (line ++ tail) = indentations line := by
  rw [indentations, indentations, isBlankLine_append, h, Bool.and_true]
  cases hline : isBlankLine line with
  | true => rfl
  | false => simp only [indentation_append_of_visible hline]

theorem exists_tail_of_bare (line : List Char) :
    ∃ tail, line = bare line ++ tail ∧ isBlankLine tail = true := by
  unfold bare
  split
  · rename_i rest h
    refine ⟨['\r', '\n'], ?_, rfl⟩
    rw [← List.reverse_reverse line, h]
    simp
  · rename_i rest _ h
    refine ⟨['\n'], ?_, rfl⟩
    rw [← List.reverse_reverse line, h]
    simp
  · exact ⟨[], (List.append_nil line).symm, rfl⟩

theorem indentations_bare (line : List Char) : indentations (bare line) = indentations line := by
  obtain ⟨tail, hline, htail⟩ := exists_tail_of_bare line
  have h := indentations_append htail (bare line)
  rw [← hline] at h
  exact h.symm

theorem flatMap_indentations (text : List Char) :
    ((lines text).map bare).flatMap indentations = (pieces text).flatMap indentations := by
  rw [List.flatMap_map]
  simp only [indentations_bare]
  induction text using pieces_induction with
  | last body h =>
    rw [lines_of_notMem h, pieces_of_notMem h]
    split
    · rename_i hbody
      rw [hbody]
      rfl
    · rfl
  | feed body rest h ih =>
    rw [lines_append_feed h, pieces_append h, List.flatMap_cons, List.flatMap_cons, ih,
      indentations_append rfl]

end Indentations

section Longest

structure IsLongestCommon (margin : List Char) (texts : List (List Char)) : Prop where
  isPrefix : ∀ text ∈ texts, margin <+: text
  longest : ∀ other, (∀ text ∈ texts, other <+: text) → other <+: margin

theorem common?_longest {xs ys : List Char} (h : common? xs ys = some margin)
    (hx : other <+: xs) (hy : other <+: ys) : other <+: margin := by
  fun_induction common? xs ys generalizing margin other with
  | case1 xs y ys ih =>
    obtain ⟨rest, hrest, rfl⟩ := Option.map_eq_some_iff.mp h
    cases other with
    | nil => exact List.nil_prefix
    | cons c other =>
      obtain ⟨hc, hxs⟩ := List.cons_prefix_cons.mp hx
      obtain ⟨-, hys⟩ := List.cons_prefix_cons.mp hy
      exact List.cons_prefix_cons.mpr ⟨hc, ih hrest hxs hys⟩
  | case2 => cases h
  | case3 x xs y ys hne =>
    cases other with
    | nil => exact List.nil_prefix
    | cons c other =>
      have hcx := (List.cons_prefix_cons.mp hx).1
      exact absurd (hcx.symm.trans (List.cons_prefix_cons.mp hy).1) hne
  | case4 xs ys hshort =>
    cases xs with
    | nil => exact List.prefix_nil.mp hx ▸ List.nil_prefix
    | cons x xs =>
      cases ys with
      | nil => exact List.prefix_nil.mp hy ▸ List.nil_prefix
      | cons y ys => exact (hshort x xs y ys rfl rfl).elim

namespace IsLongestCommon

variable {shared next both : List Char} {texts : List (List Char)}

theorem singleton (text : List Char) : IsLongestCommon text [text] :=
  ⟨fun _ ht => List.mem_singleton.mp ht ▸ List.prefix_rfl,
    fun _ hother => hother text (List.mem_singleton_self text)⟩

theorem snoc (h : IsLongestCommon shared texts) (hboth : common? shared next = some both) :
    IsLongestCommon both (texts ++ [next]) := by
  obtain ⟨hshared, hnext⟩ := common?_isPrefix hboth
  constructor
  · intro text ht
    rcases List.mem_append.mp ht with ht | ht
    · exact hshared.trans (h.isPrefix text ht)
    · exact List.mem_singleton.mp ht ▸ hnext
  · intro other hother
    apply common?_longest hboth
    · apply h.longest
      intro text ht
      exact hother text (List.mem_append_left _ ht)
    · exact hother next (List.mem_append_right _ (List.mem_singleton_self next))

theorem foldlM {rest : List (List Char)} (h : IsLongestCommon shared texts)
    (hrest : rest.foldlM common? shared = some margin) : IsLongestCommon margin (texts ++ rest) := by
  induction rest generalizing shared texts with
  | nil =>
    cases hrest
    rwa [List.append_nil]
  | cons next rest ih =>
    obtain ⟨both, hboth, hrest⟩ := Option.bind_eq_some_iff.mp hrest
    rw [List.append_cons]
    exact ih (h.snoc hboth) hrest

end IsLongestCommon

theorem isLongestCommon_of_foldlM {first : List Char} {rest : List (List Char)}
    (h : rest.foldlM common? first = some margin) : IsLongestCommon margin (first :: rest) :=
  (IsLongestCommon.singleton first).foldlM h

theorem isLongestCommon_of_margin? {text : List Char} (h : margin? text = some margin)
    (hvisible : (pieces text).flatMap indentations ≠ []) :
    IsLongestCommon margin ((pieces text).flatMap indentations) := by
  rw [margin?, map_indentation, flatMap_indentations] at h
  cases hall : (pieces text).flatMap indentations with
  | nil => exact absurd hall hvisible
  | cons first rest =>
    rw [hall] at h
    exact isLongestCommon_of_foldlM h

theorem margin?_of_blank {text : List Char} (h : (pieces text).flatMap indentations = []) :
    margin? text = some [] := by
  rw [margin?, map_indentation, flatMap_indentations, h]

end Longest

section Cut

def unindent (margin piece : List Char) : List Char :=
  if isBlankLine piece then [] else piece.drop margin.length

theorem notMem_unindent (h : '\n' ∉ body) : '\n' ∉ unindent margin body := by
  unfold unindent
  split
  · exact List.not_mem_nil
  · exact fun hm => h (List.mem_of_mem_drop hm)

theorem filter_feed_of_notMem (h : '\n' ∉ body) : body.filter (· == '\n') = [] := by
  rw [List.filter_eq_nil_iff]
  rintro c hc heq
  exact h (beq_iff_eq.mp heq ▸ hc)

theorem withoutMargin_of_notMem (h : '\n' ∉ body) :
    withoutMargin margin body = unindent margin body := by
  rw [withoutMargin, unindent, filter_feed_of_notMem h]

theorem withoutMargin_feed (h : '\n' ∉ body)
    (hm : isBlankLine body = false → margin <+: body) :
    withoutMargin margin (body ++ ['\n']) = unindent margin body ++ ['\n'] := by
  have hblank : isBlankLine (body ++ ['\n']) = isBlankLine body := by
    rw [isBlankLine_append]
    exact Bool.and_true _
  rw [withoutMargin, unindent, hblank]
  cases hbody : isBlankLine body with
  | true =>
    rw [if_pos rfl, if_pos rfl, List.filter_append, filter_feed_of_notMem h]
    rfl
  | false =>
    rw [if_neg nofun, if_neg nofun, List.drop_append_of_le_length (hm hbody).length_le]

theorem pieces_withoutMargin {text : List Char}
    (h : ∀ piece ∈ pieces text, isBlankLine piece = false → margin <+: piece) :
    pieces ((lines text).flatMap (withoutMargin margin)) =
      (pieces text).map (unindent margin) := by
  induction text using pieces_induction with
  | last body hbody =>
    rw [pieces_of_notMem hbody, lines_of_notMem hbody]
    split
    · rename_i hnil
      rw [hnil]
      rfl
    · rw [List.flatMap_singleton, withoutMargin_of_notMem hbody,
        pieces_of_notMem (notMem_unindent hbody)]
      rfl
  | feed body rest hbody ih =>
    rw [pieces_append hbody] at h ⊢
    obtain ⟨hfirst, hrest⟩ := List.forall_mem_cons.mp h
    rw [lines_append_feed hbody, List.flatMap_cons, withoutMargin_feed hbody hfirst,
      List.append_assoc, List.singleton_append, pieces_append (notMem_unindent hbody), ih hrest,
      List.map_cons]

end Cut

theorem mem_indentations_iff {texts : List (List Char)} {indent : List Char} :
    indent ∈ texts.flatMap indentations ↔
      ∃ line ∈ texts, isBlankLine line = false ∧ indentation line = indent := by
  rw [List.mem_flatMap]
  refine exists_congr fun line => and_congr_right fun _ => ?_
  unfold indentations
  cases isBlankLine line with
  | true => simp
  | false => simp [eq_comm]

theorem isPrefix_indentation_of_head? {c : Char} (h : margin <+: indentation line)
    (hc : isBlank c = true) (hhead : (line.drop margin.length).head? = some c) :
    margin ++ [c] <+: indentation line := by
  obtain ⟨rest, hline⟩ := isPrefix_of_indentation h
  have hdrop : line.drop margin.length = rest := by rw [← hline, List.drop_left]
  rw [hdrop] at hhead
  obtain ⟨after, rfl⟩ := List.head?_eq_some_iff.mp hhead
  have hblank : isBlankLine (margin ++ [c]) = true := by
    rw [isBlankLine_append, isBlankLine_of_isPrefix h, Bool.true_and, isBlankLine, List.all_cons, hc]
    rfl
  have hsplit : margin ++ c :: after = margin ++ [c] ++ after := List.append_cons margin c after
  rw [← hline, hsplit, indentation_append hblank]
  exact List.prefix_append _ _

theorem unindent_of_visible (h : isBlankLine line = false) (margin : List Char) :
    unindent margin line = line.drop margin.length := by
  rw [unindent, h, if_neg nofun]

theorem isBlankLine_unindent (h : margin <+: indentation line) (hline : isBlankLine line = false) :
    isBlankLine (unindent margin line) = false := by
  rw [unindent_of_visible hline]
  rwa [← List.prefix_iff_eq_append.mp (isPrefix_of_indentation h), isBlankLine_append,
    isBlankLine_of_isPrefix h, Bool.true_and] at hline

structure Unindented (margin before after : List Char) : Prop where
  blank : (∀ c ∈ before, isBlank c = true) → after = []
  visible : (∃ c ∈ before, isBlank c = false) → before = margin ++ after

theorem unindented_unindent {piece : List Char} (h : isBlankLine piece = false → margin <+: piece) :
    Unindented margin piece (unindent margin piece) where
  blank hblank := if_pos (isBlankLine_iff.mpr hblank)
  visible hvisible := by
    have hpiece := isBlankLine_eq_false_iff.mpr hvisible
    rw [unindent_of_visible hpiece]
    exact (List.prefix_iff_eq_append.mp (h hpiece)).symm

/-- The margin is blank, each piece that is not loses it, and no further blank is common to what is
left of these. -/
structure IsTakenOff (margin text out : List Char) : Prop where
  blank : ∀ c ∈ margin, isBlank c = true
  pieces : List.Forall₂ (Unindented margin) (text.splitOn '\n') (out.splitOn '\n')
  longest : (∃ piece ∈ text.splitOn '\n', ∃ c ∈ piece, isBlank c = false) →
    ∀ c, isBlank c = true → ∃ piece ∈ out.splitOn '\n',
      (∃ d ∈ piece, isBlank d = false) ∧ piece.head? ≠ some c

section Dedent

variable {text : List Char} (hm : margin? text = some margin)
include hm

theorem isPrefix_indentation_of_margin? {piece : List Char} (hp : piece ∈ pieces text)
    (hvisible : isBlankLine piece = false) : margin <+: indentation piece := by
  have hmem := mem_indentations_iff.mpr ⟨piece, hp, hvisible, rfl⟩
  exact (isLongestCommon_of_margin? hm (List.ne_nil_of_mem hmem)).isPrefix _ hmem

theorem isPrefix_of_margin? {piece : List Char} (hp : piece ∈ pieces text)
    (hvisible : isBlankLine piece = false) : margin <+: piece :=
  isPrefix_of_indentation (isPrefix_indentation_of_margin? hm hp hvisible)

theorem isBlankLine_of_margin? : isBlankLine margin = true := by
  cases hall : (pieces text).flatMap indentations with
  | nil =>
    rw [margin?_of_blank hall] at hm
    cases hm
    rfl
  | cons indent rest =>
    have hmem : indent ∈ (pieces text).flatMap indentations := hall ▸ List.mem_cons_self
    obtain ⟨piece, hp, hvisible, -⟩ := mem_indentations_iff.mp hmem
    exact isBlankLine_of_isPrefix (isPrefix_indentation_of_margin? hm hp hvisible)

theorem exists_other_head {piece : List Char} (hp : piece ∈ pieces text)
    (hvisible : isBlankLine piece = false) {c : Char} (hc : isBlank c = true) :
    ∃ line ∈ pieces text, isBlankLine line = false ∧ (unindent margin line).head? ≠ some c := by
  by_contra hcommon
  push Not at hcommon
  -- The margin could be longer by this blank.
  have hlonger : margin ++ [c] <+: margin := by
    have hmem := mem_indentations_iff.mpr ⟨piece, hp, hvisible, rfl⟩
    apply (isLongestCommon_of_margin? hm (List.ne_nil_of_mem hmem)).longest
    intro indent hindent
    obtain ⟨line, hline, hblank, rfl⟩ := mem_indentations_iff.mp hindent
    apply isPrefix_indentation_of_head? (isPrefix_indentation_of_margin? hm hline hblank) hc
    rw [← unindent_of_visible hblank]
    exact hcommon line hline hblank
  have := hlonger.length_le
  rw [List.length_append, List.length_singleton] at this
  omega

end Dedent

end Margin

/-- The text that is left has lost the longest margin that is common to the pieces of the text. -/
theorem dedent?_takes_longest_margin {text out : List Char} (h : dedent? text = some out) :
    ∃ margin, Margin.IsTakenOff margin text out := by
  obtain ⟨margin, hm, rfl⟩ := Option.map_eq_some_iff.mp h
  have hpieces : Text.pieces ((Text.lines text).flatMap (Margin.withoutMargin margin)) =
      (Text.pieces text).map (Margin.unindent margin) :=
    Margin.pieces_withoutMargin fun piece hp => Margin.isPrefix_of_margin? hm hp
  refine ⟨margin, Margin.isBlankLine_iff.mp (Margin.isBlankLine_of_margin? hm), ?_, ?_⟩
  · rw [← Text.pieces, ← Text.pieces, hpieces, List.forall₂_map_right_iff, List.forall₂_same]
    intro piece hp
    exact Margin.unindented_unindent (Margin.isPrefix_of_margin? hm hp)
  · rintro ⟨piece, hp, hvisible⟩ c hc
    obtain ⟨line, hline, hblank, hhead⟩ :=
      Margin.exists_other_head hm hp (Margin.isBlankLine_eq_false_iff.mpr hvisible) hc
    refine ⟨Margin.unindent margin line, ?_, ?_, hhead⟩
    · rw [← Text.pieces, hpieces]
      exact List.mem_map_of_mem hline
    · apply Margin.isBlankLine_eq_false_iff.mp
      exact Margin.isBlankLine_unindent
        (Margin.isPrefix_indentation_of_margin? hm hline hblank) hblank

theorem dedent?_takes_margin_of_mixed_indents :
    let text := "\t  if x:\r\n \n\t \ty = 1\n".toList
    let out := " if x:\r\n\n\ty = 1\n".toList
    dedent? text = some out ∧ ∃ margin, Margin.IsTakenOff margin text out := by
  intro text out
  have h : dedent? text = some out := by decide +kernel
  exact ⟨h, dedent?_takes_longest_margin h⟩

end StyleCheck
