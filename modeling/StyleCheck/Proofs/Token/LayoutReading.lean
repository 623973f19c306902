import StyleCheck.Proofs.Token.Layout
import StyleCheck.Proofs.Token.LexemeText
import StyleCheck.Proofs.Token.Reading

namespace StyleCheck.Token

namespace Layout

theorem Run.silent {tokens : List Token} {l : Layout}
    (h : ∀ t ∈ tokens, t.kind = .comment ∨ t.kind = .nl) : Run l tokens l := by
  induction tokens with
  | nil => exact .nil
  | cons t tokens ih =>
    obtain ⟨ht, hr⟩ := List.forall_mem_cons.1 h
    exact .cons (.silent ht) (ih hr)

theorem Run.dedents {t : Token} (h : t.kind = .dedent) (kept closed : Nat) :
    Run ⟨0, kept + closed, false⟩ (List.replicate closed t) ⟨0, kept, false⟩ := by
  induction closed with
  | zero => exact .nil
  | succ n ih => exact .cons (.dedent h) ih

end Layout

structure Tracks (tokens : List Token) (s : State) (opened : Bool) : Prop where
  run : Layout.Run Layout.start tokens ⟨s.depth, s.indents.length, opened⟩
  closed_of_start : s.depth = 0 → s.atLineStart = true → opened = false
  quote_of_string : ∀ start close text, s.pending = .string start close text →
    ∃ quote, isQuote quote = true ∧ close.getLast? = some quote

def Tracked (ended : Prop) (tokens : List Token) (s : State) : Prop :=
  ∃ opened, Tracks tokens s opened ∧
    (ended → s.pending = .nothing → s.depth = 0 → opened = false)

variable {tokens before : List Token} {s s' : State} {opened : Bool} {ended ended' : Prop}

theorem Tracked.mono (h : Tracked ended tokens s) (he : ended' → ended) :
    Tracked ended' tokens s := by
  obtain ⟨opened, ht, hc⟩ := h
  exact ⟨opened, ht, fun h' => hc (he h')⟩

theorem State.atLineStart_after (s : State) (kind : Kind) (text : List Char) :
    (s.after kind text).atLineStart = decide (kind ∈ [Kind.newline, .nl, .indent, .dedent]) :=
  rfl

theorem Tracks.token {kind : Kind} (h : Tracks before s opened) (line column : Nat)
    (text : List Char)
    (hk : kind = .comment ∨ kind = .op ∨ kind = .name ∨ kind = .number ∨ kind = .string) :
    ∃ opened, Tracks (before ++ [onLine line column kind text]) (s.after kind text) opened := by
  have hclosed : ∀ b : Bool, (s.after kind text).depth = 0 →
      (s.after kind text).atLineStart = true → b = false := by
    intro b _ hs
    rw [State.atLineStart_after] at hs
    rcases hk with rfl | rfl | rfl | rfl | rfl <;> simp at hs
  rcases hk with rfl | rfl | hk
  · exact ⟨opened, h.run.snoc (.silent (.inl rfl)), hclosed _, h.quote_of_string⟩
  · exact ⟨true, h.run.snoc (.op rfl), hclosed _, h.quote_of_string⟩
  · have hd : (s.after kind text).depth = s.depth := by
      rcases hk with rfl | rfl | rfl <;> rfl
    refine ⟨true, ?_, hclosed _, h.quote_of_string⟩
    rw [hd]
    exact h.run.snoc (.word hk)

theorem Tracks.lineEnd {line column : Nat} {text : List Char} (h : Tracks before s opened) :
    Tracked ended (before ++ [onLine line column s.breakKind text]) (s.after s.breakKind text) := by
  by_cases hb : 0 < s.depth ∨ s.atLineStart = true
  · have hk : s.breakKind = .nl := if_pos hb
    rw [hk]
    -- In brackets the line may stay open; outside of them it was not open before.
    have hclosed : s.depth = 0 → opened = false := by
      intro hd
      rcases hb with hb | hb
      · omega
      · exact h.closed_of_start hd hb
    refine ⟨opened, ⟨h.run.snoc (.silent (.inr rfl)), ?_, h.quote_of_string⟩, ?_⟩
    · intro hd _
      exact hclosed hd
    · intro _ _ hd
      exact hclosed hd
  · have hk : s.breakKind = .newline := if_neg hb
    have hd : s.depth = 0 := by omega
    rw [hk]
    refine ⟨false, ⟨?_, fun _ _ => rfl, h.quote_of_string⟩, fun _ _ _ => rfl⟩
    have := h.run
    rw [hd] at this
    have hr := this.snoc (t := onLine line column .newline text) (.newline rfl)
    simpa [State.after, hd] using hr

theorem Scanned.tracked {line column : Nat} {cs : List Char} (h : Scanned line column cs s tokens s')
    (ht : Tracks before s opened) (hp : s.pending = .nothing) :
    Tracked (cs.getLast? = some '\n') (before ++ tokens) s' := by
  induction h generalizing before opened with
  | nil =>
    rw [List.append_nil]
    exact ⟨opened, ht, by simp⟩
  | @blank column c cs s s' tokens h _ ih =>
    apply (ih ht hp).mono
    intro hl
    -- Neither a blank nor a token ends in the line feed, so it is in what follows.
    have hs : ([c] ++ cs).getLast? = some '\n' := hl
    apply getLast?_of_append hs
    apply getLast?_ne_of_isMargin
    simpa using isMargin_of_lexeme h
  | @token column c cs s s' tokens kind extra h _ ih =>
    obtain ⟨opened', ht'⟩ := ht.token line column (c :: cs.take extra) (kind_of_lexeme h)
    rw [List.append_cons]
    apply (ih ht' hp).mono
    intro hl
    have hc : c :: cs = (c :: cs.take extra) ++ cs.drop extra := by simp
    rw [hc] at hl
    exact getLast?_of_append hl (getLast?_of_lexeme h)
  | opening h =>
    rw [List.append_nil]
    refine ⟨opened, ⟨ht.run, ht.closed_of_start, ?_⟩, by simp⟩
    intro start close text hs
    cases hs
    exact quote_of_lexeme h
  | lineEnd h => exact ht.lineEnd
  | join h =>
    rw [List.append_nil]
    refine ⟨opened, ⟨ht.run, ht.closed_of_start, ?_⟩, by simp⟩
    intro start close text hs
    cases hs

theorem Indented.tracks {line : Nat} {m : List Char} (h : Indented line m s tokens s')
    (ht : Tracks before s false) (hd : s.depth = 0) :
    Tracks (before ++ tokens) s' false := by
  have hr := ht.run
  rw [hd] at hr
  cases h with
  | deeper =>
    refine ⟨?_, fun _ _ => rfl, ht.quote_of_string⟩
    simp only [hd]
    exact hr.snoc (.indent rfl)
  | @level closed kept hs =>
    refine ⟨?_, fun _ _ => rfl, ht.quote_of_string⟩
    rw [hs, List.length_append, Nat.add_comm] at hr
    simp only [hd]
    exact hr.append (.dedents rfl kept.length closed.length)

theorem tracks_blankLine {line column : Nat} {cs : List Char}
    (h : blankLine line column cs s = .ok (tokens, s')) (ht : Tracks before s false) :
    Tracks (before ++ tokens) s' false := by
  obtain ⟨comment, ending, _, htokens, rfl⟩ := blankLine_eq_ok h
  refine ⟨ht.run.append (.silent ?_), fun _ _ => rfl, ht.quote_of_string⟩
  intro t hm
  rw [htokens, List.mem_append] at hm
  rcases hm with hm | hm
  · split at hm
    · simp at hm
    · exact .inl (congrArg Token.kind (List.mem_singleton.1 hm))
  · split at hm
    · simp at hm
    · exact .inr (congrArg Token.kind (List.mem_singleton.1 hm))

theorem LineRead.tracked {line : Nat} {cs : List Char} (h : LineRead line cs s tokens s')
    (ht : Tracked True before s) : Tracked (cs.getLast? = some '\n') (before ++ tokens) s' := by
  obtain ⟨opened, ht, hc⟩ := ht
  cases h with
  | @closing start close text n tokens s' hp hn rest =>
    obtain ⟨quote, hq, hl⟩ := ht.quote_of_string start close text hp
    have hstring : Tracks
        (before ++ [⟨.string, text ++ cs.take n, start, ⟨line, Text.width (cs.take n)⟩⟩])
        { s with pending := .nothing, last := some .string } true := by
      refine ⟨ht.run.snoc (.word (.inr (.inr rfl))), ?_, ?_⟩
      · intro _ hs
        simp [State.atLineStart] at hs
      · intro start close text hs
        cases hs
    rw [List.append_cons]
    apply (rest.tracked hstring rfl).mono
    -- The string ends in its quote, so the line feed stands behind it.
    intro hl'
    rw [← List.take_append_drop n cs] at hl'
    apply getLast?_of_append hl'
    rw [getLast?_closed hn hl]
    intro h
    exact isQuote_ne_lineFeed hq (Option.some.inj h)
  | @inside start close text hp hn =>
    rw [List.append_nil]
    refine ⟨opened, ⟨ht.run, ht.closed_of_start, ?_⟩, by simp⟩
    intro start' close' text' hs
    cases hs
    exact ht.quote_of_string start close text hp
  | joined hp rest =>
    have hs : Tracks before { s with pending := .nothing } opened := by
      refine ⟨ht.run, ht.closed_of_start, ?_⟩
      intro start close text hs
      cases hs
    exact rest.tracked hs rfl
  | nested hp hd rest => exact rest.tracked ht hp
  | blank hp hd _ rest =>
    rw [hc trivial hp hd] at ht
    exact ⟨false, tracks_blankLine rest ht, fun _ _ _ => rfl⟩
  | fresh hp hd _ hi rest =>
    rw [hc trivial hp hd] at ht
    rw [← List.append_assoc]
    have hi' := hi.tracks ht hd
    apply (rest.tracked hi' (hi.pending.trans hp)).mono
    intro hl
    rw [← margin_append_body cs] at hl
    exact getLast?_of_append hl (getLast?_ne_of_isMargin (margin_isMargin cs))

theorem LinesRead.tracked {line : Nat} {lines : List (List Char)}
    (h : LinesRead line lines s tokens s') (ht : Tracked True before s) (hn : [] ∉ lines)
    (hl : ∀ cs ∈ lines.dropLast, cs.getLast? = some '\n') :
    Tracked (lines.getLast?.getD [] = [] ∨ (lines.getLast?.getD []).getLast? = some '\n')
      (before ++ tokens) s' := by
  induction h generalizing before with
  | nil =>
    rw [List.append_nil]
    exact ht.mono fun _ => trivial
  | @cons line cs rest s s' s'' tokens others head tail ih =>
    have hfirst := head.tracked ht
    rw [← List.append_assoc]
    cases rest with
    | nil =>
      cases tail
      rw [List.append_nil]
      apply hfirst.mono
      have hcs : cs ≠ [] := by
        rintro rfl
        exact hn List.mem_cons_self
      simp [hcs]
    | cons next rest =>
      have hready : Tracked True (before ++ tokens) s' :=
        hfirst.mono fun _ => hl cs List.mem_cons_self
      have := ih hready (fun hm => hn (List.mem_cons_of_mem cs hm))
        (fun line hm => hl line (List.mem_cons_of_mem cs hm))
      rwa [List.getLast?_cons_cons]

theorem tracks_of_linesStep {source : List Char} {lines after : List (List Char)}
    (hl : Text.lines source = lines ++ after) (h : linesStep 1 lines .start = .ok (tokens, s)) :
    ∃ opened, Tracks tokens s opened := by
  have hstart : Tracked True [] .start := by
    refine ⟨false, ⟨.nil, fun _ _ => rfl, ?_⟩, fun _ _ _ => rfl⟩
    intro start close text hs
    cases hs
  have hnil : [] ∉ lines := by
    intro hmem
    exact Text.nil_notMem_lines source (hl ▸ List.mem_append_left after hmem)
  have hfeed : ∀ cs ∈ lines.dropLast, cs.getLast? = some '\n' := by
    intro cs hcs
    apply Text.getLast?_of_mem_dropLast_lines source
    rw [hl, List.dropLast_append]
    split
    · exact hcs
    · exact List.mem_append_left _ (List.dropLast_subset _ hcs)
  obtain ⟨opened, htracks, -⟩ := (linesRead_of_linesStep h).tracked hstart hnil hfeed
  exact ⟨opened, htracks⟩

theorem run_impliedBreak (line : Nat) {last : List Char}
    (h : Tracked (last = [] ∨ last.getLast? = some '\n') tokens s) (hp : s.pending = .nothing)
    (hd : s.depth = 0) :
    Layout.Run Layout.start (tokens ++ impliedBreak line last s) ⟨0, s.indents.length, false⟩ := by
  obtain ⟨opened, ht, hc⟩ := h
  have hr := ht.run
  rw [hd] at hr
  unfold impliedBreak
  split
  · rename_i hlast
    have hopened : opened = false := by
      rcases hlast with hlast | hlast | hlast
      · exact hc (.inl hlast) hp hd
      · exact hc (.inr hlast) hp hd
      · exact ht.closed_of_start hd hlast
    rw [List.append_nil, ← hopened]
    exact hr
  · exact hr.snoc (.newline rfl)

theorem blockStructure_of_tokenize {source : List Char} {tokens : List Token}
    (h : tokenize source = .ok tokens) : BlockStructure tokens := by
  obtain ⟨read, s, final, hread, hfinal, rfl⟩ := tokenize_eq_ok_iff.1 h
  obtain ⟨hp, hd, rfl⟩ := finish_eq_ok_iff.1 hfinal
  have hstart : Tracked True [] .start := by
    refine ⟨false, ⟨.nil, fun _ _ => rfl, ?_⟩, fun _ _ _ => rfl⟩
    intro start close text hs
    cases hs
  have htracked := (linesRead_of_linesStep hread).tracked hstart (Text.nil_notMem_lines source)
    (Text.getLast?_of_mem_dropLast_lines source)
  have hbreak := run_impliedBreak (Text.lines source).length htracked hp hd
  rw [← Nat.zero_add s.indents.length] at hbreak
  have hdedent : (onLine ((Text.lines source).length + 1) 0 .dedent []).kind = .dedent := rfl
  have hrun := hbreak.append (.dedents hdedent 0 s.indents.length)
  rw [← List.append_assoc, ← List.append_assoc]
  exact hrun.blockStructure rfl

theorem blockStructure_of_nested_call : ∃ tokens,
    tokenize "a:\n b:\n\tc(\n)\n# d\n e".toList = .ok tokens ∧
    tokens.map (·.kind) = [.name, .op, .newline, .indent, .name, .op, .newline, .indent, .name,
      .op, .nl, .op, .newline, .comment, .nl, .dedent, .name, .newline, .dedent, .endMarker] ∧
    BlockStructure tokens := by
  refine ⟨_, rfl, rfl, ?_⟩
  have h : tokenize "a:\n b:\n\tc(\n)\n# d\n e".toList = .ok _ := rfl
  exact blockStructure_of_tokenize h

end StyleCheck.Token
