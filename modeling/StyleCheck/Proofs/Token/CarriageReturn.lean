import StyleCheck.Proofs.Token.Delimiter
import StyleCheck.Proofs.Token.Parallel

namespace StyleCheck

def Text.withReturns (cs : List Char) : List Char :=
  cs.flatMap fun c => if c = '\n' then ['\r', '\n'] else [c]

def Token.withReturns (t : Token) : Token :=
  { t with
    text := if t.kind ∈ [Kind.newline, .nl, .string] then Text.withReturns t.text else t.text
    stop := if t.kind ∈ [Kind.newline, .nl] ∧ t.text ≠ [] then
      { t.stop with column := t.stop.column + 1 } else t.stop }

namespace Text

theorem withReturns_cons (c : Char) (cs : List Char) :
    withReturns (c :: cs) = (if c = '\n' then ['\r', '\n'] else [c]) ++ withReturns cs :=
  List.flatMap_cons

theorem withReturns_append (a b : List Char) :
    withReturns (a ++ b) = withReturns a ++ withReturns b :=
  List.flatMap_append

theorem withReturns_of_notMem {cs : List Char} (h : '\n' ∉ cs) : withReturns cs = cs := by
  induction cs with
  | nil => rfl
  | cons c cs ih =>
    obtain ⟨hc, hcs⟩ := List.ne_and_not_mem_of_not_mem_cons h
    rw [withReturns_cons, if_neg hc.symm, ih hcs]
    rfl

theorem lines_withReturns (cs : List Char) :
    lines (withReturns cs) = (lines cs).map withReturns := by
  induction cs with
  | nil => rfl
  | cons c cs ih =>
    rw [withReturns_cons]
    by_cases hc : c = '\n'
    · simp only [hc, if_true, List.cons_append, List.nil_append, lines, ih]
      rfl
    · simp only [hc, if_false, List.cons_append, List.nil_append, lines, ih]
      cases lines cs with
      | nil => simp [withReturns, hc]
      | cons line rest => simp [withReturns_cons, hc]

end Text

namespace Token

def Pending.withReturns : Pending → Pending
  | .nothing => .nothing
  | .join => .join
  | .string start close text => .string start close (Text.withReturns text)

structure Returned (s s' : State) : Prop extends Alike Pending.withReturns s s' where
  quoted : s.Quoted

def returning : Parallel :=
  ⟨Token.withReturns, id, Returned⟩

inductive Ending : List Char → List Char → Prop
  | none : Ending [] []
  | feed : Ending ['\n'] ['\r', '\n']

def IsPlainLine (cs : List Char) : Prop :=
  ∃ body e e', cs = body ++ e ∧ (∀ c ∈ body, isLineEnd c = false) ∧ Ending e e'

variable {line : Nat} {s s' : State} {body e e' : List Char}

namespace Ending

theorem withReturns_append (h : Ending e e') (hb : '\n' ∉ body) :
    Text.withReturns (body ++ e) = body ++ e' := by
  rw [Text.withReturns_append, Text.withReturns_of_notMem hb]
  cases h <;> rfl

theorem blind {α : Type} {f : List Char → α} (h : Ending e e')
    (hf : ∀ e, IsBreak e → f (body ++ e) = f body) :
    f (body ++ e) = f body ∧ f (body ++ e') = f body := by
  cases h with
  | none => simp only [List.append_nil, and_self]
  | feed =>
    constructor
    · exact hf _ ⟨by simp, by simp [isLineEnd]⟩
    · exact hf _ ⟨by simp, by simp [isLineEnd]⟩

end Ending

theorem lineFeed_notMem (hb : ∀ c ∈ body, isLineEnd c = false) : '\n' ∉ body := by
  intro hmem
  cases hb '\n' hmem

theorem withReturns_of_notMem {t : Token} (hk : t.kind ∈ [Kind.newline, .nl] → t.text = [])
    (ht : '\n' ∉ t.text) : t.withReturns = t := by
  have hstop : ¬ (t.kind ∈ [Kind.newline, .nl] ∧ t.text ≠ []) := fun h => h.2 (hk h.1)
  rw [Token.withReturns, Text.withReturns_of_notMem ht, ite_self, if_neg hstop]

theorem withReturns_feed (line column : Nat) {kind : Kind} (hk : kind = .newline ∨ kind = .nl) :
    (onLine line column kind ['\n']).withReturns = onLine line column kind ['\r', '\n'] := by
  cases hk with
  | inl hk => subst hk; rfl
  | inr hk => subst hk; rfl

theorem Returned.closed (h : Returned s s') {pending : Pending}
    (hp : ∀ start close text, pending ≠ .string start close text)
    (hf : pending.withReturns = pending) :
    Returned { s with pending := pending } { s' with pending := pending } :=
  ⟨h.withPending hf.symm, State.quoted_of_ne hp⟩

theorem scan_withReturns (hb : ∀ c ∈ body, isLineEnd c = false) (he : Ending e e')
    (h : Returned s s') {skip : Nat} (hskip : skip ≤ body.length) (column : Nat) :
    returning.Steps (scan line skip column (body ++ e) s) (scan line skip column (body ++ e') s') := by
  induction body generalizing skip column s s' with
  | nil =>
    obtain rfl : skip = 0 := Nat.le_zero.mp hskip
    cases he with
    | none => exact .ok h
    | feed =>
      have hbreak := s.breakKind_cases
      have hop : s.breakKind ≠ .op := by
        intro hk
        simp [hk] at hbreak
      change returning.Steps (.ok ([onLine line column s.breakKind ['\n']], _))
        (.ok ([onLine line column s'.breakKind ['\r', '\n']], s'.after s'.breakKind _))
      rw [h.breakKind_eq]
      apply Parallel.Steps.ok_of_eq
      · exact congrArg (· :: []) (withReturns_feed line column hbreak).symm
      · exact ⟨h.after_ne hop _ _, h.quoted⟩
  | cons c body ih =>
    obtain ⟨hc, hbody⟩ := List.forall_mem_cons.mp hb
    cases skip with
    | succ skip => exact ih hbody h (Nat.le_of_succ_le_succ hskip) _
    | zero =>
      by_cases hjoin : c = '\\' ∧ body = []
      · obtain ⟨rfl, rfl⟩ := hjoin
        -- A backslash is the one character that looks at the break behind it.
        cases he with
        | none => exact .error
        | feed => exact .ok (h.closed (by simp) rfl)
      · have hlexeme : lexeme c (body ++ e) = lexeme c body ∧
            lexeme c (body ++ e') = lexeme c body :=
          he.blind fun e he => lexeme_append he fun hc hbody => hjoin ⟨hc, hbody⟩
        simp only [List.cons_append, scan, hlexeme.1, hlexeme.2]
        cases hl : lexeme c body with
        | blank => exact ih hbody h (Nat.zero_le _) _
        | token kind extra =>
          have hle := lexeme_token_le hl
          have htext : '\n' ∉ c :: body.take extra := by
            rw [← List.take_succ_cons]
            exact fun hmem => lineFeed_notMem hb (List.mem_of_mem_take hmem)
          simp only [List.take_append_of_le_length hle]
          apply Parallel.Steps.cons
          · symm
            apply withReturns_of_notMem _ htext
            rcases kind_of_lexeme hl with rfl | rfl | rfl | rfl | rfl <;> simp
          · exact ih hbody ⟨h.after kind _, h.quoted⟩ hle _
        | opening close =>
          have htext := he.withReturns_append (lineFeed_notMem hb)
          refine .ok ⟨h.withPending ?_, ?_⟩
          · rw [List.cons_append, List.cons_append] at htext
            rw [Pending.withReturns, htext]
          · intro _ _ _ hp
            cases hp
            exact exists_delimiter hl
        | lineEnd =>
          rw [isLineEnd_of_lexeme hl] at hc
          cases hc
        | join => exact .ok (h.closed (by simp) rfl)
        | stray fault => exact .error

theorem takeWhile_ending (hb : ∀ c ∈ body, isLineEnd c = false) (he : Ending e e') :
    (body ++ e).takeWhile (!isLineEnd ·) = body ∧ (body ++ e').takeWhile (!isLineEnd ·) = body := by
  have hbody : ∀ c ∈ body, (!isLineEnd c) = true := fun c hc => by rw [hb c hc]; rfl
  rw [List.takeWhile_append_of_pos hbody, List.takeWhile_append_of_pos hbody]
  cases he <;> simp [isLineEnd]

theorem blankTokens_withReturns (hb : ∀ c ∈ body, isLineEnd c = false) (he : Ending e e')
    (line column : Nat) : blankTokens line column (body ++ e') =
      (blankTokens line column (body ++ e)).map Token.withReturns := by
  obtain ⟨hcomment, hcomment'⟩ := takeWhile_ending hb he
  have hfeed := lineFeed_notMem hb
  have hpiece : (if body = [] then [] else [onLine line column .comment body]) =
      (if body = [] then [] else [onLine line column .comment body]).map Token.withReturns := by
    split
    · rfl
    · apply congrArg (· :: [])
      symm
      exact withReturns_of_notMem (by simp [onLine]) hfeed
  simp only [blankTokens, hcomment, hcomment', List.drop_left, List.map_append, ← hpiece]
  apply congrArg
  cases he <;> rfl

theorem Returned.joins (h : Returned s s') : ∀ t t', t.pending = s.pending →
    Alike Pending.withReturns t t' → returning.Joins t t' := by
  intro t t' hp ht
  refine ⟨ht, ?_⟩
  intro start close text hopen
  exact h.quoted start close text (hp ▸ hopen)

theorem freshLine_withReturns (hb : ∀ c ∈ body, isLineEnd c = false) (he : Ending e e')
    (h : Returned s s') :
    returning.Steps (freshLine line (body ++ e) s) (freshLine line (body ++ e') s') := by
  have hmargin := he.blind fun e he =>
    takeWhile_append (p := isMargin) (stops_of rfl rfl) he.startsWith body
  have hle : (body.takeWhile isMargin).length ≤ body.length := runLength_le isMargin body
  have hrest : ∀ c ∈ body.drop (body.takeWhile isMargin).length, isLineEnd c = false :=
    fun c hc => hb c (List.mem_of_mem_drop hc)
  have hfeed : '\n' ∉ body.takeWhile isMargin :=
    fun hmem => by cases List.all_eq_true.mp List.all_takeWhile '\n' hmem
  rw [freshLine_eq, freshLine_eq, hmargin.1, hmargin.2, List.drop_append_of_le_length hle,
    List.drop_append_of_le_length hle]
  generalize body.drop (body.takeWhile isMargin).length = rest at hrest
  have hblank : startsBlankLine (rest ++ e') = startsBlankLine (rest ++ e) := by
    cases rest with
    | nil => cases he <;> rfl
    | cons c rest => rfl
  rw [hblank]
  split
  · exact h.steps_blankLine (blankTokens_withReturns hrest he line _) (fun _ => rfl) h.joins
  · have hindent : returning.Steps (indentStep line (body.takeWhile isMargin) s)
        (indentStep line (body.takeWhile isMargin) s') := by
      apply h.steps_indentStep _ _ rfl h.joins
      · exact withReturns_of_notMem (by simp) hfeed
      · rfl
    apply hindent.append
    intro t t' ht
    exact scan_withReturns hrest he ht (Nat.zero_le _) _

theorem lineStep_withReturns (hb : ∀ c ∈ body, isLineEnd c = false) (he : Ending e e')
    (h : Returned s s') :
    returning.Steps (lineStep line (body ++ e) s) (lineStep line (body ++ e') s') := by
  have hfeed := lineFeed_notMem hb
  unfold lineStep
  rw [h.pending_eq]
  cases hp : s.pending with
  | nothing =>
    simp only [Pending.withReturns, h.depth_eq]
    split
    · exact scan_withReturns hb he h (Nat.zero_le _) 0
    · exact freshLine_withReturns hb he h
  | join => exact scan_withReturns hb he (h.closed (by simp) rfl) (Nat.zero_le _) 0
  | string start close text =>
    obtain ⟨quote, rest, hq, rfl⟩ := h.quoted start close text hp
    have hclosing := he.blind fun e he => closing?_delimiter_append hq he rest body
    simp only [Pending.withReturns, hclosing.1, hclosing.2]
    cases hn : closing? (delimiter quote rest) body with
    | none =>
      refine .ok ⟨h.withPending ?_, ?_⟩
      · rw [← he.withReturns_append hfeed, ← Text.withReturns_append]
        rfl
      · intro _ _ _ hopen
        cases hopen
        exact h.quoted _ _ _ hp
    | some n =>
      have hle : n ≤ body.length := closingFrom?_le hn
      have hrest : ∀ c ∈ body.drop n, isLineEnd c = false :=
        fun c hc => hb c (List.mem_of_mem_drop hc)
      have htaken : '\n' ∉ body.take n := fun hmem => hfeed (List.mem_of_mem_take hmem)
      simp only [List.take_append_of_le_length hle, List.drop_append_of_le_length hle]
      apply Parallel.Steps.cons
      · simp [returning, Token.withReturns, Text.withReturns_append,
          Text.withReturns_of_notMem htaken]
      · apply scan_withReturns hrest he _ (Nat.zero_le _)
        exact ⟨⟨h.indents_eq, h.depth_eq, rfl, rfl⟩, State.quoted_of_ne (by simp)⟩

theorem linesStep_withReturns (h : Returned s s') (line : Nat) {lines : List (List Char)}
    (hl : ∀ cs ∈ lines, IsPlainLine cs) :
    returning.Steps (linesStep line lines s) (linesStep line (lines.map Text.withReturns) s') := by
  induction lines generalizing line s s' with
  | nil => exact .ok h
  | cons cs rest ih =>
    obtain ⟨⟨body, e, e', rfl, hb, he⟩, hrest⟩ := List.forall_mem_cons.mp hl
    rw [List.map_cons, he.withReturns_append (lineFeed_notMem hb), linesStep_cons, linesStep_cons]
    apply (lineStep_withReturns hb he h).append
    intro t t' ht
    exact ih ht (line + 1) hrest

theorem isPlainLine_of_mem_lines {source cs : List Char} (hr : '\r' ∉ source)
    (h : cs ∈ Text.lines source) : IsPlainLine cs := by
  obtain ⟨body, hfeed, hcs⟩ := Text.exists_body_of_mem_lines h
  have hsub : ∀ c ∈ body, c ∈ source := by
    intro c hc
    rw [← Text.flatten_lines source]
    apply List.mem_flatten.mpr ⟨cs, h, _⟩
    cases hcs with
    | inl hcs => rwa [hcs]
    | inr hcs =>
      rw [hcs]
      exact List.mem_append_left _ hc
  have hbody : ∀ c ∈ body, isLineEnd c = false := by
    intro c hc
    apply Bool.eq_false_iff.mpr
    intro hend
    obtain rfl | rfl := isLineEnd_iff.mp hend
    · exact hr (hsub _ hc)
    · exact hfeed hc
  cases hcs with
  | inl hcs => exact ⟨body, [], [], by rw [hcs, List.append_nil], hbody, .none⟩
  | inr hcs => exact ⟨body, _, _, hcs, hbody, .feed⟩

theorem impliedBreak_withReturns (he : Ending e e') (h : Returned s s') (line : Nat) :
    impliedBreak line (body ++ e') s' =
      (impliedBreak line (body ++ e) s).map Token.withReturns := by
  cases he with
  | none =>
    simp only [impliedBreak, h.atLineStart_eq]
    split <;> rfl
  | feed => simp [impliedBreak]

theorem finish_withReturns (he : Ending e e') (h : Returned s s') (line : Nat) :
    finish line (body ++ e') s' = returning.result (finish line (body ++ e) s) := by
  apply h.finish_eq (impliedBreak_withReturns he h line) _ rfl rfl rfl
  · intro start close text
    exact ⟨_, _, rfl, rfl⟩
  · intro kind
    exact withReturns_of_notMem (fun _ => rfl) List.not_mem_nil

theorem tokenize_withReturns {source : List Char} (h : '\r' ∉ source) :
    tokenize (Text.withReturns source) = (tokenize source).map (List.map Token.withReturns) := by
  have hlines : ∀ cs ∈ Text.lines source, IsPlainLine cs :=
    fun cs hcs => isPlainLine_of_mem_lines h hcs
  obtain ⟨body, e, e', hlast, hb, he⟩ : IsPlainLine ((Text.lines source).getLast?.getD []) := by
    cases hl : (Text.lines source).getLast? with
    | none => exact ⟨[], [], [], rfl, by simp, .none⟩
    | some last => exact hlines last (List.mem_of_getLast? hl)
  have hfeed := lineFeed_notMem hb
  have hlast' : ((Text.lines source).map Text.withReturns).getLast?.getD [] = body ++ e' := by
    rw [List.getLast?_map, ← he.withReturns_append hfeed, ← hlast]
    cases (Text.lines source).getLast? <;> rfl
  have hmain : tokenize (Text.withReturns source) = returning.result (tokenize source) := by
    rw [tokenize_eq, tokenize_eq, Text.lines_withReturns, List.length_map, hlast, hlast']
    have hstart : Returned .start .start := ⟨⟨rfl, rfl, rfl, rfl⟩, State.quoted_start⟩
    apply (linesStep_withReturns hstart 1 hlines).complete
    intro s s' h
    exact finish_withReturns he h _
  rw [hmain]
  cases tokenize source <;> rfl

theorem tokenize_withReturns_of_nested_string : '\r' ∉ "f('''\n''', # g\n1)\n".toList ∧
    tokenize "f('''\r\n''', # g\r\n1)\r\n".toList =
      (tokenize "f('''\n''', # g\n1)\n".toList).map (List.map Token.withReturns) ∧
    tokenize "f('''\r\n''', # g\r\n1)\r\n".toList = .ok
      [onLine 1 0 .name ['f'], onLine 1 1 .op ['('],
        ⟨.string, "'''\r\n'''".toList, ⟨1, 2⟩, ⟨2, 3⟩⟩, onLine 2 3 .op [','],
        onLine 2 5 .comment "# g".toList, onLine 2 8 .nl ['\r', '\n'], onLine 3 0 .number ['1'],
        onLine 3 1 .op [')'], onLine 3 2 .newline ['\r', '\n'], onLine 4 0 .endMarker []] := by
  have h : '\r' ∉ "f('''\n''', # g\n1)\n".toList := by decide
  exact ⟨h, tokenize_withReturns h, rfl⟩

end Token

end StyleCheck
