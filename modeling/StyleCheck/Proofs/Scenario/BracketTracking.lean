import Mathlib.Data.List.Induction
import StyleCheck.Proofs.Scenario.AsyncMargin
import StyleCheck.Proofs.Token.ClosingQuote
import StyleCheck.Proofs.Token.LayoutReading
import StyleCheck.Proofs.Token.LineEnds
import StyleCheck.Proofs.Token.LineNumbers
import StyleCheck.Proofs.Token.WordCharacters

/-!
The brackets that the modes count character by character, against those among the tokens. Both are
the same as long as each string stays on one line and has one quote on either side.
-/

namespace StyleCheck.Mode

open Text Token

variable {source head cs : List Char} {c quote : Char} {before : List (List Char)}
  {tokens : List Token} {s s' : State} {line column extra depth : Nat}

section Pieces

theorem notMem_marks {p : Char → Bool} (hp : marks.any p = false) (h : p c = true) : c ∉ marks := by
  intro hmem
  exact List.any_eq_false.mp hp c hmem h

theorem notMem_marks_of_isMargin (h : isMargin c = true) : c ∉ marks :=
  notMem_marks rfl h

theorem bracketDepth_operator {op : List Char} (h : op ∈ operators) (depth : Nat)
    (rest : List Char) :
    bracketDepth depth (op ++ rest) = bracketDepth (depthAfter depth op) rest := by
  have hcases : ∀ op ∈ operators,
      op ∈ [['('], ['['], ['{']] ∨ op ∈ [[')'], [']'], ['}']] ∨
        (∀ d ∈ op, d ∉ marks) ∧ op ∉ [['('], ['['], ['{']] ∧ op ∉ [[')'], [']'], ['}']] := by
    simp [operators, marks]
  rcases hcases op h with hopens | hcloses | ⟨hfree, hopens, hcloses⟩
  · simp only [List.mem_cons, List.not_mem_nil, or_false] at hopens
    rcases hopens with rfl | rfl | rfl <;> rfl
  · simp only [List.mem_cons, List.not_mem_nil, or_false] at hcloses
    rcases hcloses with rfl | rfl | rfl <;> rfl
  · rw [depthAfter_eq, if_neg hopens, if_neg hcloses, bracketDepth_append hfree]

theorem bracketDepth_op {op : List Char} (h : operator? (c :: cs) = some op) (depth : Nat) :
    bracketDepth depth (c :: cs) =
      bracketDepth (depthAfter depth (c :: cs.take (op.length - 1))) (cs.drop (op.length - 1)) := by
  have hsplit : c :: cs = (c :: cs.take (op.length - 1)) ++ cs.drop (op.length - 1) := by simp
  rw [hsplit, cons_take_operator h]
  exact bracketDepth_operator (List.mem_of_find?_eq_some h) depth _

theorem bracketDepth_word {kind : Kind} (h : lexeme c cs = .token kind extra)
    (hk : kind = .name ∨ kind = .number) (depth : Nat) :
    bracketDepth depth (c :: cs) = bracketDepth depth (cs.drop extra) := by
  have hfree : ∀ d ∈ c :: cs.take extra, d ∉ marks := fun d hd =>
    notMem_marks rfl (isWordChar_of_lexeme h hk d hd)
  have hsplit : c :: cs = (c :: cs.take extra) ++ cs.drop extra := by simp
  rw [hsplit]
  exact bracketDepth_append hfree depth _

theorem depthFrom_of_passes {body : List Char} (hq : isQuote quote = true)
    (h : Passes [quote] [quote] body) (depth : Nat) (rest : List Char) :
    depthFrom (.inside quote) depth (body ++ quote :: rest) = bracketDepth depth rest := by
  have hbackslash : quote ≠ '\\' := ne_of_isQuote hq rfl
  induction h with
  | nil => simp [depthFrom, hbackslash, bracketDepth]
  | escape _ ih => simpa [depthFrom] using ih
  | @char c cs hb hc _ ih =>
    have hquote : c ≠ quote := by
      rintro rfl
      exact hc (List.cons_prefix_cons.mpr ⟨rfl, List.nil_prefix⟩)
    simpa [depthFrom, hb, hquote] using ih

theorem notMem_marks_of_mark {mark : List Char} (hm : mark = [] ∨ isStringMark mark = true) :
    ∀ d ∈ mark, d ∉ marks := by
  have hall : ∀ d ∈ marks, d.toLower ∉ ['r', 'u', 'b', 'f'] := by simp [marks]
  intro d hd hmem
  exact hall d hmem (toLower_of_mem_mark hm hd)

theorem bracketDepth_quote (hq : isQuote quote = true) (depth : Nat) (rest : List Char) :
    bracketDepth depth (quote :: rest) = depthFrom (.inside quote) depth rest := by
  have hquote : quote = '\'' ∨ quote = '"' := by simpa [isQuote] using hq
  simp [bracketDepth, depthFrom, hquote]

theorem bracketDepth_string (h : lexeme c cs = .token .string extra)
    (hs : HasShortQuote (c :: cs.take extra)) (depth : Nat) :
    bracketDepth depth (c :: cs) = bracketDepth depth (cs.drop extra) := by
  obtain ⟨mark, quote, rest, body, hm, hq, htext, hp⟩ := exists_parts_of_token h
  have hshort : delimiter quote rest = [quote] := (htext ▸ hs).delimiter_eq hm hq
  rw [hshort] at htext hp
  calc bracketDepth depth (c :: cs)
      = bracketDepth depth ((c :: cs.take extra) ++ cs.drop extra) := by simp
    _ = bracketDepth depth (mark ++ (quote :: (body ++ quote :: cs.drop extra))) := by
        rw [htext]
        simp
    _ = depthFrom (.inside quote) depth (body ++ quote :: cs.drop extra) := by
        rw [bracketDepth_append (notMem_marks_of_mark hm), bracketDepth_quote hq]
    _ = bracketDepth depth (cs.drop extra) := depthFrom_of_passes hq hp depth _

end Pieces

section Lines

/-- The strings among the tokens stay on one line and have one quote on either side. -/
def ShortStrings (tokens : List Token) : Prop :=
  ∀ t ∈ tokens, t.kind = .string → HasShortQuote t.text ∧ t.start.line = t.stop.line

theorem eq_nil_of_isLineEnd (hr : '\r' ∉ source) (hl : InLine source before head (c :: cs))
    (hc : isLineEnd c = true) : cs = [] := by
  obtain rfl | rfl := isLineEnd_iff.mp hc
  · obtain ⟨after, hlines⟩ := hl
    refine absurd ?_ hr
    rw [← flatten_lines source, hlines]
    simp
  · exact eq_nil_of_lineFeed hl

theorem bracketDepth_lineEnd (hr : '\r' ∉ source) (hl : InLine source before head (c :: cs))
    (hc : isLineEnd c = true) (depth : Nat) : bracketDepth depth (c :: cs) = depth := by
  rw [eq_nil_of_isLineEnd hr hl hc]
  obtain rfl | rfl := isLineEnd_iff.mp hc <;> rfl

theorem bracketDepth_comment (hr : '\r' ∉ source) (hl : InLine source before head cs)
    (depth : Nat) : bracketDepth depth (cs.drop (commentLength cs)) = depth := by
  cases hdrop : cs.drop (commentLength cs) with
  | nil => rfl
  | cons d rest =>
    have hcs : cs = cs.take (commentLength cs) ++ d :: rest := by
      rw [← hdrop, List.take_append_drop]
    exact bracketDepth_lineEnd hr (InLine.step _ (hcs ▸ hl))
      (isLineEnd_of_drop_commentLength hdrop) depth

theorem bracketDepth_of_scanned (h : Scanned line column cs s tokens s')
    (hl : InLine source before head cs) (hr : '\r' ∉ source) (hs : ShortStrings tokens)
    (hend : ∀ start close text, s'.pending ≠ .string start close text) :
    bracketDepth s.depth cs = s'.depth := by
  -- What each kind of token does to the depth, it does character by character.
  induction h generalizing head with
  | nil => rfl
  | @blank column c cs s s' tokens h _ ih =>
    have hfree : ∀ d ∈ [c], d ∉ marks :=
      List.forall_mem_singleton.mpr (notMem_marks_of_isMargin (isMargin_of_lexeme h))
    rw [← ih (hl.step [c]) hs hend]
    exact bracketDepth_append hfree _ cs
  | @token column c cs s s' tokens kind extra h _ ih =>
    obtain ⟨hfirst, hothers⟩ := List.forall_mem_cons.mp hs
    have hc : c :: cs = (c :: cs.take extra) ++ cs.drop extra := by simp
    rw [← ih (InLine.step _ (hc ▸ hl)) hothers hend]
    rcases kind_of_lexeme h with rfl | rfl | hname | hnumber | rfl
    · cases h ▸ reads_lexeme c cs with
      | comment hsharp =>
        subst hsharp
        exact (bracketDepth_comment hr (hl.step ['#']) s.depth).symm
    · cases h ▸ reads_lexeme c cs with
      | op ho => exact bracketDepth_op ho s.depth
    · subst hname
      exact bracketDepth_word h (.inl rfl) s.depth
    · subst hnumber
      exact bracketDepth_word h (.inr rfl) s.depth
    · exact bracketDepth_string h (hfirst rfl).1 s.depth
  | opening => exact absurd rfl (hend _ _ _)
  | @lineEnd column c cs s h =>
    have hdepth : (s.after s.breakKind (c :: cs)).depth = s.depth := by
      rcases s.breakKind_cases with hk | hk <;> simp [State.after, hk]
    rw [hdepth]
    exact bracketDepth_lineEnd hr hl (isLineEnd_of_lexeme h) s.depth
  | @join column c cs s h =>
    obtain ⟨rfl, hend⟩ := backslash_of_lexeme h
    cases cs with
    | nil => cases hend
    | cons d rest => exact bracketDepth_lineEnd hr (hl.step ['\\']) hend s.depth

theorem bracketDepth_of_indented {m : List Char} (h : Indented line m s tokens s')
    (hm : ∀ d ∈ m, isMargin d = true) (rest : List Char) :
    bracketDepth s.depth (m ++ rest) = bracketDepth s'.depth rest := by
  have hdepth : s'.depth = s.depth := by cases h <;> rfl
  rw [hdepth, bracketDepth_append fun d hd => notMem_marks_of_isMargin (hm d hd)]

theorem bracketDepth_of_blankLine (hl : InLine source before (margin cs) (body cs))
    (hr : '\r' ∉ source) (hb : startsBlankLine (body cs) = true) (depth : Nat) :
    bracketDepth depth cs = depth := by
  have hmargin : ∀ d ∈ margin cs, d ∉ marks := fun d hd =>
    notMem_marks_of_isMargin (margin_isMargin cs d hd)
  rw [← margin_append_body cs, bracketDepth_append hmargin]
  cases hbody : body cs with
  | nil => rfl
  | cons c rest =>
    rw [hbody] at hb hl
    obtain rfl | hc := startsBlankLine_cons_iff.mp hb
    · rfl
    · exact bracketDepth_lineEnd hr hl hc depth

theorem bracketDepth_of_lineRead {after : List (List Char)}
    (h : LineRead (before.length + 1) cs s tokens s')
    (hl : lines source = before ++ cs :: after) (hr : '\r' ∉ source) (hs : ShortStrings tokens)
    (hstart : ∀ start close text, s.pending ≠ .string start close text)
    (hend : ∀ start close text, s'.pending ≠ .string start close text) :
    bracketDepth s.depth cs = s'.depth := by
  have hin : InLine source before [] cs := ⟨after, hl⟩
  have hbody : InLine source before (margin cs) (body cs) := ⟨after, by rw [margin_append_body, hl]⟩
  cases h with
  | closing hp | inside hp => exact absurd hp (hstart _ _ _)
  | joined _ rest =>
    have hdepth := bracketDepth_of_scanned rest hin hr hs hend
    exact hdepth
  | nested _ _ rest => exact bracketDepth_of_scanned rest hin hr hs hend
  | blank _ _ hb rest =>
    obtain ⟨_, _, _, _, rfl⟩ := blankLine_eq_ok rest
    exact bracketDepth_of_blankLine hbody hr hb s.depth
  | fresh _ _ _ hi rest =>
    obtain ⟨-, hscanned⟩ := List.forall_mem_append.mp hs
    rw [← bracketDepth_of_scanned rest hbody hr hscanned hend,
      ← bracketDepth_of_indented hi (margin_isMargin cs), margin_append_body]

end Lines

section Runs

variable {after : List (List Char)} {read : List Token}

theorem pending_ne_string (h : tokenize source = .ok tokens) (hs : ShortStrings tokens)
    (hl : lines source = before ++ after)
    (hread : linesStep 1 before .start = .ok (read, s)) :
    ∀ start close text, s.pending ≠ .string start close text := by
  intro start close text hp
  obtain ⟨_, _, others, t, final, hread', hothers, hfinal, rfl⟩ := exists_reading h hl
  have hend := (finish_eq_ok_iff.mp hfinal).1
  rw [hread] at hread'
  cases hread'
  cases after with
  | nil =>
    cases hothers
    rw [hp] at hend
    cases hend
  | cons cs after =>
    obtain ⟨u, more, rfl, hk, hstart, hstop⟩ := hothers.string hp hend
    have hempty : State.start.OpenedIn [] := State.openedIn_of_ne (by simp [State.start])
    have hopened := ((linesRead_of_linesStep hread).stringSpan rfl hl hempty).2
    obtain ⟨first, inner, head, c, rest, hlines, -, -, rfl, -⟩ := hopened start close text hp
    have hsame := (hs u (by simp) hk).2
    have hlength := congrArg List.length hlines
    simp only [List.nil_append, List.length_append, List.length_cons] at hlength
    rw [hstart] at hsame
    rcases hstop with hstop | ⟨n, -, hstop⟩
    · rw [← hsame] at hstop
      dsimp only at hstop
      omega
    · rw [hstop] at hsame
      dsimp only at hsame
      omega

theorem foldl_bracketDepth_of_linesStep (h : tokenize source = .ok tokens) (hr : '\r' ∉ source)
    (hs : ShortStrings tokens) (hl : lines source = before ++ after)
    (hread : linesStep 1 before .start = .ok (read, s)) :
    before.foldl bracketDepth 0 = s.depth := by
  induction before using List.reverseRecOn generalizing after read s with
  | nil =>
    cases hread
    rfl
  | append_singleton before cs ih =>
    have hlast := pending_ne_string h hs hl hread
    obtain ⟨first, t, here, hfirst, hline, rfl⟩ := exists_lineRead hread
    have hhere : ShortStrings here := by
      obtain ⟨_, _, _, _, _, hread', -, -, rfl⟩ := exists_reading h hl
      rw [hread] at hread'
      cases hread'
      exact fun t ht => hs t (by simp [ht])
    rw [List.append_assoc] at hl
    rw [List.foldl_append, ih hl hfirst]
    exact bracketDepth_of_lineRead hline hl hr hhere (pending_ne_string h hs hl hfirst) hlast

theorem foldl_bracketStep_filter {p : Token → Bool} (h : ∀ t ∈ tokens, t.kind = .op → p t = true)
    (depth : Nat) : (tokens.filter p).foldl bracketStep depth = tokens.foldl bracketStep depth := by
  induction tokens generalizing depth with
  | nil => rfl
  | cons t tokens ih =>
    obtain ⟨ht, hothers⟩ := List.forall_mem_cons.mp h
    rw [List.filter_cons]
    split
    · rw [List.foldl_cons, List.foldl_cons, ih hothers]
    · rename_i hp
      rw [List.foldl_cons, bracketStep_of_not_op fun hk => hp (ht hk), ih hothers]

theorem foldl_bracketStep_of_no_op (h : ∀ t ∈ tokens, t.kind ≠ .op) (depth : Nat) :
    tokens.foldl bracketStep depth = depth := by
  induction tokens with
  | nil => rfl
  | cons t tokens ih =>
    obtain ⟨ht, hothers⟩ := List.forall_mem_cons.mp h
    rw [List.foldl_cons, bracketStep_of_not_op ht, ih hothers]

/-- After any number of lines the mode sees as many brackets open as the tokenizer, and as the
operators up to there leave open. -/
theorem bracketDepth_eq_of_tokenize (h : tokenize source = .ok tokens) (hr : '\r' ∉ source)
    (hs : ShortStrings tokens) (n : Nat) :
    ∃ read s, linesStep 1 ((lines source).take n) .start = .ok (read, s) ∧
      ((lines source).take n).foldl bracketDepth 0 = s.depth ∧
      s.depth = Token.bracketDepth (tokens.filter (·.start.line ≤ n)) := by
  have hl : lines source = (lines source).take n ++ (lines source).drop n :=
    (List.take_append_drop n _).symm
  obtain ⟨read, s, others, s', final, hread, hothers, hfinal, htokens⟩ := exists_reading h hl
  refine ⟨read, s, hread, foldl_bracketDepth_of_linesStep h hr hs hl hread, ?_⟩
  obtain ⟨opened, htracks⟩ := tracks_of_linesStep hl hread
  have hdepth : s.depth = Token.bracketDepth read := htracks.run.depth_eq
  have hread' : ∀ t ∈ read, t.kind = .op → decide (t.start.line ≤ n) = true := by
    intro t ht hk
    have hbound := ((linesRead_of_linesStep hread).start_line ht (by simp [hk])).2
    rw [List.length_take] at hbound
    exact decide_eq_true (by omega)
  have hothers' : ∀ t ∈ others.filter (·.start.line ≤ n), t.kind ≠ .op := by
    intro t ht hk
    obtain ⟨hmem, hline⟩ := List.mem_filter.mp ht
    have hbound := hothers.start_line hmem (by simp [hk])
    rw [List.length_take, List.length_drop] at hbound
    have hn := of_decide_eq_true hline
    omega
  have hfinal' : ∀ t ∈ final.filter (·.start.line ≤ n), t.kind ≠ .op := by
    intro t ht hk
    have hkind := kind_of_finish hfinal t (List.mem_of_mem_filter ht)
    simp [hk] at hkind
  rw [htokens, List.filter_append, List.filter_append, Token.bracketDepth, List.foldl_append,
    List.foldl_append, foldl_bracketStep_of_no_op hfinal', foldl_bracketStep_of_no_op hothers',
    foldl_bracketStep_filter hread', hdepth, Token.bracketDepth]

theorem bracketDepth_eq_of_quoted_brackets : ∃ tokens,
    tokenize "f('(\\'', # [\n  [b\"\x7d\"])\n".toList = .ok tokens ∧
    '\r' ∉ "f('(\\'', # [\n  [b\"\x7d\"])\n".toList ∧ ShortStrings tokens ∧
    ∀ n, ∃ read s,
      linesStep 1 ((lines "f('(\\'', # [\n  [b\"\x7d\"])\n".toList).take n) .start = .ok (read, s) ∧
      ((lines "f('(\\'', # [\n  [b\"\x7d\"])\n".toList).take n).foldl bracketDepth 0 = s.depth ∧
      s.depth = Token.bracketDepth (tokens.filter (·.start.line ≤ n)) := by
  obtain ⟨tokens, htokens, hstrings⟩ : ∃ tokens,
      tokenize "f('(\\'', # [\n  [b\"\x7d\"])\n".toList = .ok tokens ∧
      ∀ t ∈ tokens, t.kind = .string →
        t ∈ [⟨.string, "'(\\''".toList, ⟨1, 2⟩, ⟨1, 7⟩⟩,
          ⟨.string, "b\"\x7d\"".toList, ⟨2, 3⟩, ⟨2, 7⟩⟩] :=
    ⟨_, rfl, by decide⟩
  have hshort : ShortStrings tokens := by
    intro t ht hk
    have hmem := hstrings t ht hk
    simp only [List.mem_cons, List.not_mem_nil, or_false] at hmem
    rcases hmem with rfl | rfl
    · exact ⟨⟨'\'', _, [], '\'', "(\\''".toList, rfl, .inl rfl, rfl, rfl, rfl⟩, rfl⟩
    · exact ⟨⟨'"', _, ['b'], '"', "\x7d\"".toList, rfl, .inr rfl, rfl, rfl, rfl⟩, rfl⟩
  have hr : '\r' ∉ "f('(\\'', # [\n  [b\"\x7d\"])\n".toList := by decide
  exact ⟨tokens, htokens, hr, hshort, bracketDepth_eq_of_tokenize htokens hr hshort⟩

end Runs

end StyleCheck.Mode
