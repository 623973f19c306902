import StyleCheck.Proofs.Token.ClosingQuote
import StyleCheck.Proofs.Token.LineEnds

/-!
Line breaks in strings with a short delimiter. Such a string is carried to its second line by a
backslash at the end of the first, and from there on without one; each of its breaks is escaped
exactly when all of the lines on which it goes on end in an odd number of backslashes.
-/

namespace StyleCheck.Token

open Text

def backslashes (cs : List Char) : Nat :=
  runLength (· == '\\') cs.reverse

/-- The last backslash stands right before the break, or a carriage return between them, and no
other backslash escapes it. -/
def EscapesBreak (cs : List Char) : Prop :=
  backslashes cs % 2 = 1 ∨ ∃ head, cs = head ++ ['\r'] ∧ backslashes head % 2 = 1

def FeedsEscaped (text : List Char) : Prop :=
  ∀ head tail, text = head ++ '\n' :: tail → EscapesBreak head

def EndsEscaped (line : List Char) : Prop :=
  ∃ body, line = body ++ ['\n'] ∧ EscapesBreak body

variable {head body tail rest : List Char} {c : Char}

section Escapes

theorem backslashes_append (hc : c ≠ '\\') (head tail : List Char) :
    backslashes (head ++ c :: tail) = backslashes tail := by
  have hstop : (c :: head.reverse).takeWhile (· == '\\') = [] :=
    List.takeWhile_cons_of_neg (by simpa using hc)
  simp only [backslashes, runLength, List.reverse_append, List.reverse_cons, List.append_assoc,
    List.singleton_append, List.takeWhile_append, hstop, List.append_nil]
  split
  · rename_i hall
    rw [(List.takeWhile_prefix _).eq_of_length hall]
  · rfl

theorem escapesBreak_append (hc : c ≠ '\\') (hr : c ≠ '\r') (head tail : List Char) :
    EscapesBreak (head ++ c :: tail) ↔ EscapesBreak tail := by
  have hreturn : (∃ stem, head ++ c :: tail = stem ++ ['\r'] ∧ backslashes stem % 2 = 1) ↔
      ∃ stem, tail = stem ++ ['\r'] ∧ backslashes stem % 2 = 1 := by
    constructor
    · rintro ⟨stem, heq, hodd⟩
      rcases List.eq_nil_or_concat tail with rfl | ⟨more, d, rfl⟩
      · exact absurd (List.cons.inj (List.append_inj' heq rfl).2).1 hr
      · rw [List.concat_eq_append, ← List.cons_append, ← List.append_assoc] at heq
        obtain ⟨rfl, hd⟩ := List.append_inj' heq rfl
        refine ⟨more, by rw [List.concat_eq_append, hd], ?_⟩
        rwa [backslashes_append hc] at hodd
    · rintro ⟨stem, rfl, hodd⟩
      exact ⟨head ++ c :: stem, by simp, by rwa [backslashes_append hc]⟩
  rw [EscapesBreak, EscapesBreak, backslashes_append hc, hreturn]

theorem feedsEscaped_of_notMem (h : '\n' ∉ rest) : FeedsEscaped rest := by
  rintro head tail rfl
  simp at h

theorem feedsEscaped_append (hbody : '\n' ∉ body) :
    FeedsEscaped (body ++ '\n' :: rest) ↔ EscapesBreak body ∧ FeedsEscaped rest := by
  constructor
  · intro h
    refine ⟨h body rest rfl, ?_⟩
    rintro head tail rfl
    have hlater := h (body ++ '\n' :: head) tail (by simp)
    rwa [escapesBreak_append (by decide) (by decide)] at hlater
  · rintro ⟨hfirst, hrest⟩ head tail heq
    rcases List.append_eq_append_iff.mp heq with ⟨more, rfl, hmore⟩ | ⟨more, rfl, hmore⟩
    · cases more with
      | nil => rwa [List.append_nil]
      | cons d more =>
        obtain ⟨rfl, rfl⟩ := List.cons.inj hmore
        rw [escapesBreak_append (by decide) (by decide)]
        exact hrest more tail rfl
    · cases more with
      | nil => rwa [List.append_nil] at hfirst
      | cons d more =>
        obtain ⟨rfl, -⟩ := List.cons.inj hmore
        exact absurd (by simp) hbody

theorem endsEscaped_iff : EndsEscaped (body ++ ['\n']) ↔ EscapesBreak body := by
  constructor
  · rintro ⟨body', heq, h⟩
    rwa [(List.append_inj' heq rfl).1]
  · exact fun h => ⟨body, rfl, h⟩

theorem feedsEscaped_flatten {pieces : List (List Char)} (hpieces : ∀ line ∈ pieces, EndsLine line)
    (hrest : '\n' ∉ rest) :
    FeedsEscaped (pieces.flatten ++ rest) ↔ ∀ line ∈ pieces, EndsEscaped line := by
  induction pieces with
  | nil => simpa using feedsEscaped_of_notMem hrest
  | cons line pieces ih =>
    obtain ⟨⟨body, hbody, rfl⟩, hothers⟩ := List.forall_mem_cons.mp hpieces
    rw [List.forall_mem_cons, endsEscaped_iff, ← ih hothers, ← feedsEscaped_append hbody]
    simp

theorem endsEscaped_append (hc : c ≠ '\\') (hr : c ≠ '\r') (head body : List Char) :
    EndsEscaped (head ++ c :: (body ++ ['\n'])) ↔ EndsEscaped (body ++ ['\n']) := by
  rw [← List.cons_append, ← List.append_assoc, endsEscaped_iff, endsEscaped_iff,
    escapesBreak_append hc hr]

end Escapes

section Spans

variable {source : List Char} {t : Token}

def LinesEscaped (source : List Char) (t : Token) : Prop :=
  ∀ before line after, lines source = before ++ line :: after →
    t.start.line ≤ before.length + 1 → before.length + 1 < t.stop.line → EndsEscaped line

/-- The first break of the text has a backslash before it, or carriage returns between them. -/
def FirstBreakMarked (text : List Char) : Prop :=
  ∀ head tail, text = head ++ '\n' :: tail → '\n' ∉ head →
    ∃ stem returns, head = stem ++ '\\' :: returns ∧ ∀ c ∈ returns, c = '\r'

theorem linesEscaped_iff {before pieces after : List (List Char)}
    (hl : lines source = before ++ (pieces ++ after)) (hstart : t.start.line = before.length + 1)
    (hstop : t.stop.line = before.length + 1 + pieces.length) :
    LinesEscaped source t ↔ ∀ line ∈ pieces, EndsEscaped line := by
  constructor
  · intro h line hline
    obtain ⟨first, others, rfl⟩ := List.append_of_mem hline
    apply h (before ++ first) line (others ++ after)
    · simp [hl]
    · rw [hstart, List.length_append]
      omega
    · rw [hstop]
      simp only [List.length_append, List.length_cons]
      omega
  · intro h before' line after' hl' hfrom hto
    rw [hstart] at hfrom
    rw [hstop] at hto
    have hget : (before ++ (pieces ++ after))[before'.length]? = some line := by
      rw [← hl, hl', List.getElem?_append_right (Nat.le_refl _), Nat.sub_self]
      rfl
    rw [List.getElem?_append_right (by omega), List.getElem?_append_left (by omega)] at hget
    exact h line (List.mem_of_getElem? hget)

theorem lineFeed_notMem_closed {close last : List Char} {n : Nat} {before after : List (List Char)}
    (hl : lines source = before ++ last :: after) (hn : closing? close last = some n)
    (hq : ∀ c ∈ close, isQuote c = true) (hne : close ≠ []) : '\n' ∉ last.take n := by
  intro hmem
  obtain ⟨head, tail, htake⟩ := List.append_of_mem hmem
  have hin : InLine source before head ('\n' :: (tail ++ last.drop n)) := by
    refine ⟨after, ?_⟩
    rw [hl, ← List.cons_append, ← List.append_assoc, ← htake, List.take_append_drop]
  obtain ⟨rfl, -⟩ := List.append_eq_nil_iff.mp (eq_nil_of_lineFeed hin)
  obtain ⟨body, hbody, -⟩ := exists_passes_of_closingFrom? hn
  obtain ⟨q, hquote⟩ : ∃ q, close.getLast? = some q := ⟨_, List.getLast?_eq_some_getLast hne⟩
  have hlast : (last.take n).getLast? = some q := by
    rw [hbody, List.getLast?_append, hquote, Option.some_or]
  rw [htake, List.getLast?_concat] at hlast
  cases hlast
  cases hq _ (List.mem_of_getLast? hquote)

theorem lineFeed_notMem_within {before : List (List Char)} {cs : List Char} {extra : Nat}
    (hl : InLine source before head (c :: cs)) (h : lexeme c cs = .token .string extra) :
    '\n' ∉ c :: cs.take extra := by
  intro hmem
  obtain ⟨first, tail, htext⟩ := List.append_of_mem hmem
  have hin : InLine source before (head ++ first) ('\n' :: (tail ++ cs.drop extra)) := by
    have hcs : c :: cs = first ++ '\n' :: (tail ++ cs.drop extra) := by
      rw [← List.cons_append, ← List.append_assoc, ← htext, List.cons_append, List.take_append_drop]
    exact InLine.step first (hcs ▸ hl)
  obtain ⟨rfl, -⟩ := List.append_eq_nil_iff.mp (eq_nil_of_lineFeed hin)
  apply getLast?_of_lexeme h
  rw [htext, List.getLast?_concat]

theorem exists_first_line {cs close more : List Char} (h : lexeme c cs = .opening close)
    (hl : EndsLine (head ++ c :: cs)) (hs : HasShortQuote (c :: cs ++ more)) :
    ∃ mark quote body, c :: cs = mark ++ quote :: (body ++ ['\n']) ∧ isQuote quote = true ∧
      close = [quote] ∧ '\n' ∉ mark ++ quote :: body ∧
      startsWith (· == '\\') ((body ++ ['\n']).reverse.dropWhile isLineEnd) = true := by
  obtain ⟨mark, quote, rest, tail, hm, hq, rfl, hopen, htail, -, hcontinues⟩ :=
    exists_parts_of_opening h
  have hshort : delimiter quote rest = [quote] := by
    rw [hopen, htail, List.append_assoc, List.append_assoc] at hs
    exact hs.delimiter_eq hm hq
  obtain ⟨line, hline, hend⟩ := hl.suffix
  rw [hopen, ← List.append_assoc] at hl
  obtain ⟨hfeed, -⟩ | ⟨-, body, -, rfl⟩ := endsLine_cons hl.suffix
  · exact absurd hfeed (isQuote_ne_lineFeed hq)
  refine ⟨mark, quote, body, hopen, hq, hshort, ?_, ?_⟩
  · rw [hopen, ← List.cons_append, ← List.append_assoc] at hend
    rwa [(List.append_inj' hend rfl).1]
  · simpa [continues, hshort] using hcontinues

theorem exists_returns (hbody : '\n' ∉ body)
    (h : startsWith (· == '\\') ((body ++ ['\n']).reverse.dropWhile isLineEnd) = true) :
    ∃ stem returns, body = stem ++ '\\' :: returns ∧ ∀ c ∈ returns, c = '\r' := by
  have hfeed : (body ++ ['\n']).reverse.dropWhile isLineEnd = body.reverse.dropWhile isLineEnd := by
    rw [List.reverse_append]
    rfl
  rw [hfeed] at h
  have hsplit := body.reverse.takeWhile_append_dropWhile (p := isLineEnd)
  cases hdrop : body.reverse.dropWhile isLineEnd with
  | nil =>
    rw [hdrop] at h
    cases h
  | cons d stem =>
    rw [hdrop] at h hsplit
    obtain rfl : d = '\\' := by simpa [startsWith] using h
    refine ⟨stem.reverse, (body.reverse.takeWhile isLineEnd).reverse, ?_, ?_⟩
    · calc body = body.reverse.reverse := body.reverse_reverse.symm
        _ = (body.reverse.takeWhile isLineEnd ++ '\\' :: stem).reverse := by rw [hsplit]
        _ = _ := by simp
    · intro c hc
      have hmem : c ∈ body.reverse.takeWhile isLineEnd := List.mem_reverse.mp hc
      have hend : isLineEnd c = true := List.all_eq_true.mp List.all_takeWhile c hmem
      have hin : c ∈ body := List.mem_reverse.mp (List.takeWhile_subset _ hmem)
      obtain hreturn | rfl := isLineEnd_iff.mp hend
      · exact hreturn
      · exact absurd hin hbody

theorem firstBreakMarked_append {first : List Char} (hfree : '\n' ∉ first ++ body)
    (h : startsWith (· == '\\') ((body ++ ['\n']).reverse.dropWhile isLineEnd) = true)
    (rest : List Char) : FirstBreakMarked (first ++ body ++ '\n' :: rest) := by
  intro head tail heq hhead
  have hfeed : ∀ {cs : List Char}, '\n' ∉ cs → ∀ d ∈ cs, (d == '\n') = false := by
    intro cs hcs d hd
    exact beq_eq_false_iff_ne.mpr (ne_of_mem_of_not_mem hd hcs)
  obtain ⟨rfl, -, -⟩ := append_cons_inj_of_first (hfeed hhead) (hfeed hfree) rfl rfl heq.symm
  have hbody : '\n' ∉ body := fun hmem => hfree (List.mem_append_right first hmem)
  obtain ⟨stem, returns, rfl, hreturns⟩ := exists_returns hbody h
  exact ⟨first ++ stem, returns, by simp, hreturns⟩

/-- A string with a short delimiter keeps to its line, or is marked to go on at the end of it. -/
theorem feedsEscaped_iff_of_stringSpan (h : StringSpan source t) (hs : HasShortQuote t.text) :
    FirstBreakMarked t.text ∧ (FeedsEscaped t.text ↔ LinesEscaped source t) := by
  cases h with
  | @within before head cs c extra hl h ht =>
    have hnone : '\n' ∉ t.text := by
      rw [ht]
      exact lineFeed_notMem_within hl h
    refine ⟨?_, fun _ => ?_, fun _ => feedsEscaped_of_notMem hnone⟩
    · intro first tail htext
      exact absurd (by simp [htext]) hnone
    · intro before' line after' _ hfrom hto
      rw [ht] at hfrom hto
      exact absurd hfrom (Nat.not_le.mpr hto)
  | @across before inner after head cs close last c n hl h hi hn ht =>
    have hl : lines source = before ++ (((head ++ c :: cs) :: inner) ++ last :: after) := hl
    have htext : t.text = c :: cs ++ (inner.flatten ++ last.take n) := by rw [ht, List.append_assoc]
    have hpieces := endsLine_of_lines hl (List.cons_ne_nil last after)
    obtain ⟨hfirst, hinner⟩ := List.forall_mem_cons.mp hpieces
    obtain ⟨mark, quote, body, hopen, hq, rfl, hfree, hmarked⟩ :=
      exists_first_line h hfirst (htext ▸ hs)
    have hlast : '\n' ∉ last.take n := by
      have hl' : lines source = (before ++ (head ++ c :: cs) :: inner) ++ last :: after := by
        rw [hl, List.append_assoc]
      exact lineFeed_notMem_closed hl' hn (by simpa using hq) (List.cons_ne_nil quote [])
    constructor
    · have hsplit : t.text =
          (mark ++ [quote]) ++ body ++ '\n' :: (inner.flatten ++ last.take n) := by
        rw [htext, hopen]
        simp
      rw [hsplit]
      exact firstBreakMarked_append (by simpa using hfree) hmarked _
    · rw [linesEscaped_iff hl (by rw [ht]) (by rw [ht]; rfl)]
      have hwhole : FeedsEscaped t.text ↔ ∀ line ∈ (c :: cs) :: inner, EndsEscaped line := by
        rw [← feedsEscaped_flatten (List.forall_mem_cons.mpr ⟨hfirst.suffix, hinner⟩) hlast, htext]
        simp
      -- The quote cuts off what stands before the body, on the line as in the text.
      rw [hwhole, List.forall_mem_cons, List.forall_mem_cons, hopen, ← List.append_assoc,
        endsEscaped_append (ne_of_isQuote hq rfl) (ne_of_isQuote hq rfl),
        endsEscaped_append (ne_of_isQuote hq rfl) (ne_of_isQuote hq rfl)]

end Spans

theorem feedsEscaped_iff {source : List Char} {tokens : List Token}
    (h : tokenize source = .ok tokens) {t : Token} (ht : t ∈ tokens) (hk : t.kind = .string)
    (hs : HasShortQuote t.text) :
    FirstBreakMarked t.text ∧ (FeedsEscaped t.text ↔ LinesEscaped source t) :=
  feedsEscaped_iff_of_stringSpan (stringSpan_of_tokenize h ht hk) hs

theorem feedsEscaped_of_three_lines : ∃ tokens t,
    tokenize "s = 'a\\\\\\\n b\\\r\nc'\n".toList = .ok tokens ∧ t ∈ tokens ∧ t.kind = .string ∧
      t.text = "'a\\\\\\\n b\\\r\nc'".toList ∧ HasShortQuote t.text ∧ FeedsEscaped t.text := by
  obtain ⟨tokens, htokens, hmem⟩ : ∃ tokens,
      tokenize "s = 'a\\\\\\\n b\\\r\nc'\n".toList = .ok tokens ∧
        ⟨.string, "'a\\\\\\\n b\\\r\nc'".toList, ⟨1, 4⟩, ⟨3, 2⟩⟩ ∈ tokens :=
    ⟨_, rfl, by decide⟩
  have hshort : HasShortQuote "'a\\\\\\\n b\\\r\nc'".toList :=
    ⟨'\'', _, [], '\'', "a\\\\\\\n b\\\r\nc'".toList, rfl, .inl rfl, rfl, rfl, rfl⟩
  have hlines : lines "s = 'a\\\\\\\n b\\\r\nc'\n".toList =
      [] ++ (["s = 'a\\\\\\\n".toList, " b\\\r\n".toList] ++ ["c'\n".toList]) := rfl
  refine ⟨tokens, _, htokens, hmem, rfl, rfl, hshort, ?_⟩
  apply (feedsEscaped_iff htokens hmem rfl hshort).2.mpr
  rw [linesEscaped_iff hlines rfl rfl, List.forall_mem_cons, List.forall_mem_singleton]
  refine ⟨⟨"s = 'a\\\\\\".toList, rfl, .inl rfl⟩, ⟨" b\\\r".toList, rfl, .inr ?_⟩⟩
  exact ⟨" b\\".toList, rfl, rfl⟩

theorem not_feedsEscaped_on_second_line : ∃ tokens t,
    tokenize "s = 'a\\\nb\nc'\n".toList = .ok tokens ∧ t ∈ tokens ∧ t.kind = .string ∧
      HasShortQuote t.text ∧ ¬ FeedsEscaped t.text := by
  obtain ⟨tokens, htokens, hmem⟩ : ∃ tokens,
      tokenize "s = 'a\\\nb\nc'\n".toList = .ok tokens ∧
        ⟨.string, "'a\\\nb\nc'".toList, ⟨1, 4⟩, ⟨3, 2⟩⟩ ∈ tokens :=
    ⟨_, rfl, by decide⟩
  refine ⟨tokens, _, htokens, hmem, rfl, ⟨'\'', _, [], '\'', "a\\\nb\nc'".toList, rfl, .inl rfl,
    rfl, rfl, rfl⟩, ?_⟩
  intro h
  obtain hodd | ⟨stem, hreturn, -⟩ := h "'a\\\nb".toList "c'".toList rfl
  · cases hodd
  · have hlast := congrArg List.getLast? hreturn
    rw [List.getLast?_concat] at hlast
    cases hlast

end StyleCheck.Token
