import Mathlib.Data.List.Basic
import Mathlib.Data.List.Pairwise
import StyleCheck.Proofs.Token.CarriageReturn
import StyleCheck.Proofs.Token.Contents

/-!
Whether code is lost at the end of a line. Lines end at a line feed, but a token that breaks a line
and a backslash that joins two begin at a carriage return as well.
-/

namespace StyleCheck.Token

variable {source : List Char} {tokens : List Token} {before : List (List Char)}
  {head cs : List Char} {c : Char}

structure CleanEnds (source : List Char) (tokens : List Token) : Prop where
  breaks : ∀ t ∈ tokens, t.kind = .newline ∨ t.kind = .nl → ∀ c ∈ t.text, isLineEnd c = true
  joins : ∀ before head tail, InLine source before head ('\\' :: tail) →
    startsWith isLineEnd tail = true →
    (∀ t ∈ tokens, ¬ t.Covers source (byteAfter before head)) → ∀ c ∈ tail, isLineEnd c = true

/-- Every character that is no blank, no line end and no backslash at the end of a line is in a
name, a number, a string, an operator or a comment. -/
structure KeepsCode (source : List Char) (tokens : List Token) : Prop
    extends CleanEnds source tokens where
  covered : ∀ before head c cs, InLine source before head (c :: cs) → isMargin c = false →
    isLineEnd c = false → (c = '\\' → startsWith isLineEnd cs = false) →
    ∃ t ∈ tokens, t.isCode = true ∧ t.Covers source (byteAfter before head)

/-- Behind a carriage return outside of strings its line has only line ends. -/
def ReturnsEndLines (source : List Char) (tokens : List Token) : Prop :=
  ∀ before head cs, InLine source before head ('\r' :: cs) →
    (∀ t ∈ tokens, t.kind = .string → ¬ t.Covers source (byteAfter before head)) →
    ∀ c ∈ cs, isLineEnd c = true

theorem eq_nil_of_lineFeed (h : InLine source before head ('\n' :: cs)) : cs = [] := by
  obtain ⟨after, hl⟩ := h
  have hmem : head ++ '\n' :: cs ∈ Text.lines source := by simp [hl]
  obtain ⟨line, hfeed, hline | hline⟩ := Text.exists_body_of_mem_lines hmem
  · exact absurd (by simp [← hline]) hfeed
  · obtain ⟨-, -, hcs⟩ := (List.append_cons_inj_of_notMem hfeed List.not_mem_nil).mp hline.symm
    exact hcs.symm

theorem ReturnsEndLines.suffix (hr : ReturnsEndLines source tokens)
    (hl : InLine source before head (c :: cs)) (hc : isLineEnd c = true)
    (hs : ∀ t ∈ tokens, t.kind = .string → ¬ t.Covers source (byteAfter before head)) :
    ∀ d ∈ c :: cs, isLineEnd d = true := by
  refine List.forall_mem_cons.mpr ⟨hc, ?_⟩
  obtain rfl | rfl := isLineEnd_iff.mp hc
  · exact hr before head cs hl hs
  · rw [eq_nil_of_lineFeed hl]
    simp

theorem Joins.isLineEnd_of_mem {tail : List Char} (hj : Joins source tokens before head tail)
    (he : CleanEnds source tokens) : ∀ c ∈ tail, Token.isLineEnd c = true := by
  apply he.joins before head tail hj.inLine hj.isLineEnd
  apply hj.bare _ (Nat.le_refl _)
  have hpos := ('\\').utf8Size_pos
  simp only [Text.width]
  omega

namespace Accounts

variable (h : Accounts source tokens)
include h

theorem covered (he : CleanEnds source tokens) (hl : InLine source before head (c :: cs))
    (hm : isMargin c = false) (hc : isLineEnd c = false)
    (hb : c = '\\' → startsWith isLineEnd cs = false) :
    ∃ t ∈ tokens, t.isCode = true ∧ t.Covers source (byteAfter before head) := by
  cases h.covers_or_joins hl hm with
  | inl hcov =>
    obtain ⟨t, ht, hcov, hmem⟩ := hcov
    cases h.contents t ht with
    | code hcode => exact ⟨t, ht, hcode, hcov⟩
    | lineBreak hk =>
      rw [he.breaks t ht hk c hmem] at hc
      cases hc
    | margin _ htext =>
      rw [htext c hmem] at hm
      cases hm
    | empty htext =>
      rw [htext] at hmem
      cases hmem
  | inr hjoins =>
    obtain ⟨head', tail, m, hj, htail⟩ := hjoins
    cases m with
    | nil =>
      obtain ⟨rfl, rfl⟩ := List.cons.inj htail
      have hend := hj.isLineEnd
      rw [hb rfl] at hend
      cases hend
    | cons d m =>
      obtain ⟨-, rfl⟩ := List.cons.inj htail
      rw [hj.isLineEnd_of_mem he c (by simp)] at hc
      cases hc

theorem returnsEndLines (he : CleanEnds source tokens) : ReturnsEndLines source tokens := by
  intro before head cs hl hstring
  cases h.covers_or_joins hl rfl with
  | inl hcov =>
    obtain ⟨t, ht, hcov, hmem⟩ := hcov
    cases h.contents t ht with
    | code _ htext =>
      have hne : t.kind ≠ .string := fun hk => hstring t ht hk hcov
      cases htext hne _ hmem
    | lineBreak hk =>
      obtain ⟨m, htext⟩ := h.suffix_of_lineBreak hl ht hk hcov
      intro c hc
      apply he.breaks t ht hk
      rw [htext]
      exact List.mem_append_right m (List.mem_cons_of_mem _ hc)
    | margin _ htext => cases htext _ hmem
    | empty htext =>
      rw [htext] at hmem
      cases hmem
  | inr hjoins =>
    obtain ⟨head', tail, m, hj, htail⟩ := hjoins
    cases m with
    | nil => cases (List.cons.inj htail).1
    | cons d m =>
      obtain ⟨-, rfl⟩ := List.cons.inj htail
      intro c hc
      apply hj.isLineEnd_of_mem he
      exact List.mem_append_right m (List.mem_cons_of_mem _ hc)

theorem breaks (hr : ReturnsEndLines source tokens) {t : Token} (ht : t ∈ tokens)
    (hk : t.kind = .newline ∨ t.kind = .nl) : ∀ c ∈ t.text, isLineEnd c = true := by
  cases h.cases_of_lineBreak ht hk with
  | inl hempty => simp [hempty]
  | inr hbreak =>
    obtain ⟨before, head, hl, he, hstart, hstop⟩ := hbreak
    obtain ⟨c, cs, htext, hc⟩ := exists_lineEnd he
    rw [htext] at hl hstop ⊢
    apply hr.suffix hl hc
    intro u hu hstring hcov
    have hne : t ≠ u := by
      rintro rfl
      rw [hstring] at hk
      rcases hk with hk | hk <;> cases hk
    have : Std.Symm fun t u : Token => ∀ i, ¬ (t.Covers source i ∧ u.Covers source i) :=
      ⟨fun _ _ hab i hi => hab i hi.symm⟩
    have hdisjoint := h.disjoint.forall ht hu hne
    have hpos := c.utf8Size_pos
    apply hdisjoint (byteAfter before head) ⟨⟨by omega, ?_⟩, hcov⟩
    rw [hstop]
    simp only [Text.width]
    omega

theorem joins (hr : ReturnsEndLines source tokens) (hl : InLine source before head ('\\' :: cs))
    (he : startsWith isLineEnd cs = true)
    (hn : ∀ t ∈ tokens, ¬ t.Covers source (byteAfter before head)) :
    ∀ c ∈ cs, isLineEnd c = true := by
  obtain ⟨head', tail, m, hj, rfl, htail⟩ := h.exists_joins hl rfl hn
  obtain ⟨c, cs, rfl, hc⟩ := exists_lineEnd he
  have hl' : InLine source before (head' ++ m ++ ['\\']) (c :: cs) := hl.step ['\\']
  apply hr.suffix hl' hc
  intro t ht _
  have hpos := c.utf8Size_pos
  apply hj.bare
  · simp only [byteAfter, Text.width_append]
    omega
  · rw [htail]
    simp only [byteAfter, Text.width_append, Text.width]
    omega
  · exact ht

end Accounts

theorem keepsCode_iff (h : tokenize source = .ok tokens) :
    KeepsCode source tokens ↔ ReturnsEndLines source tokens := by
  have ha := accounts_of_tokenize h
  constructor
  · intro hk
    exact ha.returnsEndLines hk.toCleanEnds
  · intro hr
    have he : CleanEnds source tokens :=
      ⟨fun _ ht hk => ha.breaks hr ht hk, fun _ _ _ hl he hn => ha.joins hr hl he hn⟩
    exact ⟨he, fun _ _ _ _ hl hm hc hb => ha.covered he hl hm hc hb⟩

theorem returnsEndLines_withReturns (h : '\r' ∉ source) (tokens : List Token) :
    ReturnsEndLines (Text.withReturns source) tokens := by
  rintro before head cs ⟨after, hl⟩ -
  have hmem : head ++ '\r' :: cs ∈ (Text.lines source).map Text.withReturns := by
    rw [← Text.lines_withReturns, hl]
    simp
  obtain ⟨line, hline, heq⟩ := List.mem_map.mp hmem
  obtain ⟨body, e, e', rfl, hb, he⟩ := isPlainLine_of_mem_lines h hline
  rw [he.withReturns_append (lineFeed_notMem hb)] at heq
  have hreturn : '\r' ∉ body := fun hmem => by cases hb '\r' hmem
  cases he with
  | none =>
    rw [List.append_nil] at heq
    exact absurd (by simp [heq]) hreturn
  | feed =>
    obtain ⟨-, -, rfl⟩ := (List.append_cons_inj_of_notMem hreturn (by simp)).mp heq
    simp [isLineEnd]

theorem keepsCode_of_join : ∃ tokens,
    tokenize (Text.withReturns "x = 1 + \\\n2 # y\n".toList) = .ok tokens ∧
    KeepsCode (Text.withReturns "x = 1 + \\\n2 # y\n".toList) tokens := by
  refine ⟨_, rfl, ?_⟩
  apply (keepsCode_iff rfl).mpr
  exact returnsEndLines_withReturns (by decide) _

theorem not_keepsCode_behind_return : ∃ tokens,
    tokenize "x = 1\ry = 2\n".toList = .ok tokens ∧
    ⟨.newline, "\ry = 2\n".toList, ⟨1, 5⟩, ⟨1, 12⟩⟩ ∈ tokens ∧
    ¬ KeepsCode "x = 1\ry = 2\n".toList tokens := by
  refine ⟨_, rfl, by decide, ?_⟩
  intro h
  have hy := h.breaks ⟨.newline, "\ry = 2\n".toList, ⟨1, 5⟩, ⟨1, 12⟩⟩ (by decide) (.inl rfl) 'y'
    (by decide)
  cases hy

end StyleCheck.Token
