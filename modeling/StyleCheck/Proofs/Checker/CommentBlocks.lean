import StyleCheck.Proofs.Checker.Anchors
import StyleCheck.Proofs.Token.CommentLines

/-!
Which comments without words are let pass. The checker looks for worded comments on the lines above
and below, and not for what else is on the three lines, so that it takes three statements with
comments behind them for a comment block.
-/

namespace StyleCheck.Checker.Comments

open Text Token

def IsEmptyComment (t : Token) : Prop :=
  t.kind = .comment ∧ ∃ blanks, t.text = '#' :: blanks ∧ ∀ c ∈ blanks, isBlank c = true

def IsWordedComment (t : Token) : Prop :=
  t.kind = .comment ∧ ¬IsEmptyComment t

structure Between (tokens : List Token) (above t below : Token) : Prop where
  above_mem : above ∈ tokens
  below_mem : below ∈ tokens
  above_worded : IsWordedComment above
  below_worded : IsWordedComment below
  above_line : above.start.line + 1 = t.start.line
  below_line : below.start.line = t.start.line + 1

/-- The comment separates two paragraphs of one comment block. -/
def SeparatesParagraphs (tokens : List Token) (t : Token) : Prop :=
  ∃ above below, Between tokens above t below ∧
    ∀ u ∈ [above, t, below], StandsAlone tokens u

def ReportsStrayComments (settings : Settings) (file : SourceFile) : Prop :=
  ∀ i t, file.tokens[i]? = some t → IsEmptyComment t → ¬SeparatesParagraphs file.tokens t →
    .atToken Rule.Catalogue.emptyComment i t ∈ checker.violations settings file

variable {source cs : List Char} {tokens : List Token} {above t below u : Token} {i : Nat}
  {settings : Settings} {file : SourceFile}

section Words

theorem trimEnd_cons {c : Char} (h : isBlank c = false) (cs : List Char) :
    trimEnd (c :: cs) = c :: trimEnd cs := by
  rw [trimEnd, trimEnd, trimStart, trimStart, List.reverse_cons, List.dropWhile_append]
  split
  · rename_i hnil
    rw [List.isEmpty_iff] at hnil
    simp [hnil, h]
  · simp

theorem trimEnd_eq_sign_iff :
    trimEnd ('#' :: cs) = ['#'] ↔ ∀ c ∈ cs, isBlank c = true := by
  rw [trimEnd_cons (by decide), List.cons.injEq, and_iff_right rfl, trimEnd_eq_nil_iff]

theorem isEmptyComment_iff (h : t.text = '#' :: cs) :
    IsEmptyComment t ↔ t.kind = .comment ∧ trimEnd t.text = ['#'] := by
  rw [h, trimEnd_eq_sign_iff]
  apply and_congr_right
  intro _
  constructor
  · rintro ⟨blanks, htext, hblanks⟩
    obtain ⟨-, rfl⟩ := List.cons.inj (h.symm.trans htext)
    exact hblanks
  · intro hblanks
    exact ⟨cs, h, hblanks⟩

theorem isWorded_iff (h : t.kind = .comment → ∃ cs, t.text = '#' :: cs) :
    isWorded t = true ↔ IsWordedComment t := by
  by_cases hk : t.kind = .comment
  · obtain ⟨cs, htext⟩ := h hk
    have htrim : trimStart (trimEnd t.text) = trimEnd t.text := by
      rw [htext, trimEnd_cons (by decide)]
      rfl
    rw [IsWordedComment, isEmptyComment_iff htext, isWorded, htrim]
    simp [hk]
  · simp [isWorded, IsWordedComment, hk]

end Words

section Lines

theorem mem_wordedLines_iff (h : ∀ u ∈ tokens, u.kind = .comment → ∃ cs, u.text = '#' :: cs)
    {line : Nat} :
    line ∈ wordedLines tokens ↔ ∃ u ∈ tokens, IsWordedComment u ∧ u.start.line = line := by
  simp only [wordedLines, List.mem_map, List.mem_filter, and_assoc]
  refine exists_congr fun u => and_congr_right fun hu => ?_
  rw [isWorded_iff (h u hu)]

theorem exists_between_iff (hsign : ∀ u ∈ tokens, u.kind = .comment → ∃ cs, u.text = '#' :: cs)
    (hpos : ∀ u ∈ tokens, 0 < u.start.line) :
    t.start.line - 1 ∈ wordedLines tokens ∧ t.start.line + 1 ∈ wordedLines tokens ↔
      ∃ above below, Between tokens above t below := by
  rw [mem_wordedLines_iff hsign, mem_wordedLines_iff hsign]
  constructor
  · rintro ⟨⟨above, habove, hworded, hline⟩, below, hbelow, hworded', hline'⟩
    have hfirst := hpos above habove
    exact ⟨above, below, habove, hbelow, hworded, hworded', by omega, hline'⟩
  · rintro ⟨above, below, h⟩
    have hline : above.start.line = t.start.line - 1 := by
      have := h.above_line
      omega
    exact ⟨⟨above, h.above_mem, h.above_worded, hline⟩,
      below, h.below_mem, h.below_worded, h.below_line⟩

end Lines

section Reports

theorem anchor_of_commentViolation {worded : List Nat} {v : Violation}
    (h : commentViolation? worded i t = some v) : v.anchor = some (.ofToken i t) := by
  simp only [commentViolation?] at h
  split at h
  · split at h
    · cases h
    · cases h
      rfl
  · split at h
    · cases h
      rfl
    · cases h

theorem mem_violations_iff (hi : file.tokens[i]? = some t) (hk : t.kind = .comment)
    (htext : trimEnd t.text = ['#']) :
    .atToken Rule.Catalogue.emptyComment i t ∈ checker.violations settings file ↔
      ¬(t.start.line - 1 ∈ wordedLines file.tokens ∧
        t.start.line + 1 ∈ wordedLines file.tokens) := by
  have hreport : commentViolation? (wordedLines file.tokens) i t =
      if t.start.line - 1 ∈ wordedLines file.tokens ∧ t.start.line + 1 ∈ wordedLines file.tokens
        then none else some (.atToken Rule.Catalogue.emptyComment i t) := by
    rw [commentViolation?, if_pos htext]
  constructor
  · intro hmem
    obtain ⟨⟨u, j⟩, hu, hv⟩ := List.mem_filterMap.mp hmem
    have hj := List.mem_zipIdx_iff_getElem?.mp hu
    simp only at hv
    split at hv
    · have hanchor := anchor_of_commentViolation hv
      obtain rfl : i = j := by
        simp only [Violation.atToken, Anchor.ofToken, Option.some.injEq, Anchor.token.injEq]
          at hanchor
        exact hanchor.1
      obtain rfl : t = u := Option.some.inj (hi.symm.trans hj)
      intro hlines
      rw [hreport, if_pos hlines] at hv
      cases hv
    · cases hv
  · intro hnone
    apply List.mem_filterMap.mpr
    refine ⟨(t, i), List.mem_zipIdx_iff_getElem?.mpr hi, ?_⟩
    simp only [if_pos hk, hreport, if_neg hnone]

theorem reported_iff (h : tokenize source = .ok file.tokens) (hi : file.tokens[i]? = some t)
    (ht : IsEmptyComment t) :
    .atToken Rule.Catalogue.emptyComment i t ∈ checker.violations settings file ↔
      ∀ above below, ¬Between file.tokens above t below := by
  obtain ⟨hk, cs, htext, hblanks⟩ := ht
  have htrim : trimEnd t.text = ['#'] := by rwa [htext, trimEnd_eq_sign_iff]
  rw [mem_violations_iff hi hk htrim,
    exists_between_iff (fun u => text_of_comment h) (Token.line_pos_of_tokenize h)]
  simp only [not_exists]

end Reports

section Blocks

theorem Between.mem (h : Between tokens above t below) (ht : t ∈ tokens) (hk : t.kind = .comment) :
    ∀ u ∈ [above, t, below], u ∈ tokens ∧ u.kind = .comment := by
  simp only [List.mem_cons, List.not_mem_nil, or_false, forall_eq_or_imp, forall_eq]
  exact ⟨⟨h.above_mem, h.above_worded.1⟩, ⟨ht, hk⟩, ⟨h.below_mem, h.below_worded.1⟩⟩

theorem SeparatesParagraphs.standsAlone (hs : SeparatesParagraphs tokens t)
    (h : tokenize source = .ok tokens) (hb : Between tokens above t below) :
    ∀ u ∈ [above, t, below], StandsAlone tokens u := by
  obtain ⟨above', below', hb', halone⟩ := hs
  have habove : above = above' := by
    have hline : above.start.line = above'.start.line := by
      have := hb.above_line
      have := hb'.above_line
      omega
    exact (halone above' (by simp)).eq_of_line h hb.above_mem hb.above_worded.1 hline
  have hbelow : below = below' := by
    have hline := hb.below_line.trans hb'.below_line.symm
    exact (halone below' (by simp)).eq_of_line h hb.below_mem hb.below_worded.1 hline
  rw [habove, hbelow]
  exact halone

theorem separatesParagraphs_iff (h : tokenize source = .ok tokens) (ht : t ∈ tokens)
    (hk : t.kind = .comment) (hb : Between tokens above t below) :
    SeparatesParagraphs tokens t ↔ ∀ u ∈ [above, t, below], OpensLine source u := by
  have hopens : ∀ u ∈ [above, t, below], (StandsAlone tokens u ↔ OpensLine source u) := by
    intro u hu
    obtain ⟨hmem, hcomment⟩ := hb.mem ht hk u hu
    exact standsAlone_iff h hmem hcomment
  constructor
  · intro hs u hu
    exact (hopens u hu).mp (hs.standsAlone h hb u hu)
  · intro hall
    exact ⟨above, below, hb, fun u hu => (hopens u hu).mpr (hall u hu)⟩

end Blocks

theorem tokenize_of_read {pipeline : Pipeline} {grammar : Grammar} {name : String}
    (h : SourceFile.read pipeline grammar name source = .ok file) :
    tokenize source = .ok file.tokens := by
  obtain ⟨tree, -, h⟩ := Except.bind_eq_ok_iff.mp h
  obtain ⟨tokens, htokens, h⟩ := Except.bind_eq_ok_iff.mp h
  cases h
  exact Except.mapError_eq_ok_iff.mp htokens

theorem reportsStrayComments_iff (settings : Settings) {pipeline : Pipeline} {grammar : Grammar}
    {name : String} (h : SourceFile.read pipeline grammar name source = .ok file) :
    (∀ i t, file.tokens[i]? = some t → IsEmptyComment t →
      (.atToken Rule.Catalogue.emptyComment i t ∈ checker.violations settings file ↔
        ∀ above below, ¬Between file.tokens above t below)) ∧
    (ReportsStrayComments settings file ↔ ∀ above t below, t ∈ file.tokens → IsEmptyComment t →
      Between file.tokens above t below → ∀ u ∈ [above, t, below], OpensLine source u) := by
  have htokens := tokenize_of_read h
  refine ⟨fun i t hi ht => reported_iff htokens hi ht, ?_⟩
  constructor
  · intro hreports above t below hmem ht hb
    obtain ⟨i, hi⟩ := List.mem_iff_getElem?.mp hmem
    apply (separatesParagraphs_iff htokens hmem ht.1 hb).mp
    by_contra hstray
    exact (reported_iff htokens hi ht).mp (hreports i t hi ht hstray) above below hb
  · intro hopens i t hi ht hstray
    have hmem := List.mem_of_getElem? hi
    apply (reported_iff htokens hi ht).mpr
    intro above below hb
    exact hstray ((separatesParagraphs_iff htokens hmem ht.1 hb).mpr
      (hopens above t below hmem ht hb))

def blockAndStatement : Grammar := fun source =>
  let node := ParseTree.inner source
  let token := ParseTree.token source
  node "module" none 0 19
    [node "comment" none 0 3 [], node "comment" none 4 5 [], node "comment" none 6 9 [],
     node "expression_statement" none 10 15
       [node "assignment" none 10 15
          [node "identifier" (some "left") 10 11 [], token "=" none 12 13,
           node "integer" (some "right") 14 15 []]],
     node "comment" none 17 18 []]

theorem reportsStrayComments_of_block : ∃ file,
    SourceFile.read .standard blockAndStatement "block.py" "# a\n#\n# b\nx = 1  #\n".toList =
      .ok file ∧
    (checker.violations {} file).map (·.location) = [⟨4, 7⟩] ∧ ReportsStrayComments {} file := by
  let stray := onLine 4 7 .comment ['#']
  let tokens := [onLine 1 0 .comment "# a".toList, onLine 1 3 .nl ['\n'], onLine 2 0 .comment ['#'],
    onLine 2 1 .nl ['\n'], onLine 3 0 .comment "# b".toList, onLine 3 3 .nl ['\n'],
    onLine 4 0 .name ['x'], onLine 4 2 .op ['='], onLine 4 4 .number ['1'], stray,
    onLine 4 8 .newline ['\n'], onLine 5 0 .endMarker []]
  have h : SourceFile.read .standard blockAndStatement "block.py"
      "# a\n#\n# b\nx = 1  #\n".toList = .ok ⟨"block.py", _, tokens⟩ := rfl
  refine ⟨_, h, by decide +kernel, (reportsStrayComments_iff {} h).2.mpr ?_⟩
  intro above t below hmem ht hb u hu
  have hlines : ∀ v ∈ tokens, v.kind = .comment → v = stray ∨ v.start.line < 4 := by decide
  have hblock : ∀ v ∈ tokens, v.kind = .comment → v.start.line < 4 →
      v ∈ [onLine 1 0 .comment "# a".toList, onLine 2 0 .comment ['#'],
        onLine 3 0 .comment "# b".toList] := by
    decide
  have hbelow : below.start.line < 4 := by
    refine (hlines below hb.below_mem hb.below_worded.1).resolve_left ?_
    rintro rfl
    exact hb.below_worded.2 ⟨rfl, [], rfl, List.forall_mem_nil _⟩
  have hline : u.start.line < 4 := by
    have habove := hb.above_line
    have hnext := hb.below_line
    simp only [List.mem_cons, List.not_mem_nil, or_false] at hu
    rcases hu with rfl | rfl | rfl <;> omega
  obtain ⟨humem, hcomment⟩ := hb.mem hmem ht.1 u hu
  have hfirst := hblock u humem hcomment hline
  simp only [List.mem_cons, List.not_mem_nil, or_false] at hfirst
  rcases hfirst with rfl | rfl | rfl
  · exact ⟨[], _, _, rfl, rfl⟩
  · exact ⟨["# a\n".toList], _, _, rfl, rfl⟩
  · exact ⟨["# a\n".toList, "#\n".toList], _, _, rfl, rfl⟩

def threeStatements : Grammar := fun source =>
  let node := ParseTree.inner source
  let token := ParseTree.token source
  node "module" none 0 31
    [node "expression_statement" none 0 5
       [node "assignment" none 0 5
          [node "identifier" (some "left") 0 1 [], token "=" none 2 3,
           node "integer" (some "right") 4 5 []]],
     node "comment" none 7 10 [],
     node "expression_statement" none 11 16
       [node "assignment" none 11 16
          [node "identifier" (some "left") 11 12 [], token "=" none 13 14,
           node "integer" (some "right") 15 16 []]],
     node "comment" none 18 19 [],
     node "expression_statement" none 20 25
       [node "assignment" none 20 25
          [node "identifier" (some "left") 20 21 [], token "=" none 22 23,
           node "integer" (some "right") 24 25 []]],
     node "comment" none 27 30 []]

theorem not_reportsStrayComments_behind_code : ∃ file,
    SourceFile.read .standard threeStatements "comments.py"
      "x = 1  # a\ny = 2  #\nz = 3  # b\n".toList = .ok file ∧
    ¬ReportsStrayComments {} file := by
  refine ⟨_, rfl, ?_⟩
  intro hreports
  let name := onLine 2 0 .name ['y']
  let stray := onLine 2 7 .comment ['#']
  have hempty : IsEmptyComment stray := ⟨rfl, [], rfl, List.forall_mem_nil _⟩
  refine absurd ?_ (List.ne_nil_of_mem (hreports 8 stray rfl hempty ?_))
  · decide +kernel
  · rintro ⟨above, below, -, halone⟩
    have hbreak : ¬IsLineBreak name := by simp [IsLineBreak, name, onLine]
    have hsame : name = stray :=
      (halone stray (by simp)).eq_of_meets (by decide) ⟨by decide, by decide⟩ hbreak
    exact absurd hsame (by decide)

end StyleCheck.Checker.Comments
