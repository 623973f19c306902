import Mathlib.Data.List.Induction
import Mathlib.Data.List.TakeWhile
import StyleCheck.Proofs.Token.ClosingQuote
import StyleCheck.Proofs.Token.LayoutReading
import StyleCheck.Proofs.Token.LineNumbers
import StyleCheck.Proofs.Token.StatementStart

/-!
Which line breaks are taken for the end of a logical line. A break is judged by the token right
before it, and a comment there counts as code. This goes wrong for lines with only a comment, in two
places: at the end of a text that has no last line break, and behind a backslash that joins lines.
-/

namespace StyleCheck.Token

open Text

def codeKinds : List Kind :=
  [.name, .number, .string, .op]

def silentKinds : List Kind :=
  [.comment, .nl, .indent, .dedent, .endMarker]

@[simp] theorem mem_codeKinds_iff {kind : Kind} : kind ∈ codeKinds ↔
    kind = .name ∨ kind = .number ∨ kind = .string ∨ kind = .op := by
  simp [codeKinds]

@[simp] theorem mem_silentKinds_iff {kind : Kind} : kind ∈ silentKinds ↔
    kind = .comment ∨ kind = .nl ∨ kind = .indent ∨ kind = .dedent ∨ kind = .endMarker := by
  simp [silentKinds]

def CodeSinceBreak (before : List Token) : Prop :=
  ∃ first u middle, before = first ++ u :: middle ∧ u.kind ∈ codeKinds ∧
    ∀ v ∈ middle, v.kind ≠ .newline

/-- A `newline` ends a line of code, and no line that is blank or holds a comment only. -/
structure BreaksEndCode (source : List Char) (tokens : List Token) : Prop where
  code : ∀ before t after, tokens = before ++ t :: after → t.kind = .newline →
    CodeSinceBreak before
  blank : ∀ before line after, lines source = before ++ line :: after →
    StatementMayFollow before → startsBlankLine (body line) = true →
      ∀ t ∈ tokens, t.kind = .newline → t.start.line ≠ before.length + 1

def JoinsNext (before : List (List Char)) : Prop :=
  ∃ read s, linesStep 1 before .start = .ok (read, s) ∧ s.pending = .join

def startsComment (cs : List Char) : Bool :=
  startsWith (· == '#') (body cs)

/-- A line of its own with only a comment, the end of which is taken for that of a line of code: it
stands behind a backslash, or has no line break. -/
def MisreadComment (before : List (List Char)) (line : List Char) : Prop :=
  StatementMayFollow before ∧ startsComment line = true ∧
    (JoinsNext before ∨ line.any isLineEnd = false)

def stillOpen (opened : Bool) (t : Token) : Bool :=
  decide (t.kind ∈ codeKinds) || (opened && t.kind != .newline)

def BreaksCode : Bool → List Token → Prop
  | _, [] => True
  | opened, t :: tokens =>
    (t.kind = .newline → opened = true) ∧ BreaksCode (stillOpen opened t) tokens

def SeesClosed (opened : Bool) (s : State) : Prop :=
  opened = false → s.depth = 0 ∧ s.atLineStart = true

variable {source : List Char} {tokens others : List Token} {t : Token} {opened : Bool}
  {s s' : State} {line column : Nat} {c : Char} {cs : List Char}

section Opened

theorem stillOpen_iff : stillOpen opened t = true ↔
    t.kind ∈ codeKinds ∨ opened = true ∧ t.kind ≠ .newline := by
  simp [stillOpen]

theorem foldl_stillOpen_iff :
    tokens.foldl stillOpen false = true ↔ CodeSinceBreak tokens := by
  induction tokens using List.reverseRecOn with
  | nil => simp [CodeSinceBreak]
  | append_singleton tokens t ih =>
    rw [List.foldl_append, List.foldl_cons, List.foldl_nil, stillOpen_iff, ih]
    constructor
    · rintro (hcode | ⟨⟨first, u, middle, rfl, hu, hmiddle⟩, hk⟩)
      · exact ⟨tokens, t, [], rfl, hcode, by simp⟩
      · refine ⟨first, u, middle ++ [t], by simp, hu, ?_⟩
        simpa [or_imp, forall_and] using ⟨hmiddle, hk⟩
    · rintro ⟨first, u, middle, heq, hu, hmiddle⟩
      rcases Layout.eq_of_append_cons heq with ⟨rfl, rfl⟩ | ⟨rest, rfl, rfl⟩
      · exact .inl hu
      · simp only [List.mem_append, or_imp, forall_and, List.forall_mem_singleton] at hmiddle
        exact .inr ⟨⟨first, u, rest, rfl, hu, hmiddle.1⟩, hmiddle.2⟩

theorem breaksCode_iff : BreaksCode opened tokens ↔ ∀ before t after,
    tokens = before ++ t :: after → t.kind = .newline → before.foldl stillOpen opened = true := by
  induction tokens generalizing opened with
  | nil => simp [BreaksCode]
  | cons u tokens ih =>
    rw [BreaksCode, ih]
    constructor
    · rintro ⟨hu, hothers⟩ before t after heq hk
      rcases List.cons_eq_append_iff.mp heq with ⟨rfl, heq⟩ | ⟨before, rfl, rfl⟩
      · cases heq
        exact hu hk
      · exact hothers before t after rfl hk
    · intro h
      exact ⟨h [] u tokens rfl, fun before t after heq => h (u :: before) t after (heq ▸ rfl)⟩

theorem breaksCode_append : BreaksCode opened (tokens ++ others) ↔
    BreaksCode opened tokens ∧ BreaksCode (tokens.foldl stillOpen opened) others := by
  induction tokens generalizing opened with
  | nil => simp [BreaksCode]
  | cons t tokens ih => rw [List.cons_append, BreaksCode, BreaksCode, ih, and_assoc]; rfl

theorem stillOpen_of_silent (h : t.kind ∈ silentKinds) :
    stillOpen opened t = opened := by
  rw [mem_silentKinds_iff] at h
  rcases h with h | h | h | h | h <;> simp [stillOpen, h]

theorem breaksCode_of_silent (opened : Bool)
    (h : ∀ t ∈ tokens, t.kind ∈ silentKinds) :
    BreaksCode opened tokens ∧ tokens.foldl stillOpen opened = opened := by
  induction tokens with
  | nil => exact ⟨trivial, rfl⟩
  | cons t tokens ih =>
    obtain ⟨ht, hothers⟩ := List.forall_mem_cons.mp h
    rw [BreaksCode, List.foldl_cons, stillOpen_of_silent ht]
    refine ⟨⟨?_, (ih hothers).1⟩, (ih hothers).2⟩
    intro hk
    simp [hk] at ht

end Opened

namespace Layout

variable {l l' : Layout}

theorem Step.stillOpen_eq (h : Step t l l') : l'.opened = stillOpen l.opened t := by
  cases h with
  | word h => rcases h with h | h | h <;> simp [stillOpen, h]
  | silent h => rcases h with h | h <;> simp [stillOpen, h]
  | op h | newline h | indent h | dedent h => simp [stillOpen, h]

theorem Run.stillOpen_eq (h : Run l tokens l') : l'.opened = tokens.foldl stillOpen l.opened := by
  induction h with
  | nil => rfl
  | cons head _ ih => rw [ih, head.stillOpen_eq, List.foldl_cons]

end Layout

section Lines

theorem lexeme_of_isLineEnd (h : isLineEnd c = true) (cs : List Char) : lexeme c cs = .lineEnd := by
  simp only [isLineEnd, Bool.or_eq_true, beq_iff_eq] at h
  rcases h with rfl | rfl <;> rfl

theorem startsComment_margin (h : isMargin c = true) :
    startsComment (c :: cs) = startsComment cs := by
  simp [startsComment, body, margin, h]

theorem isLineEnd_of_isMargin (h : isMargin c = true) : isLineEnd c = false :=
  Stops.isLineEnd (stops_of rfl rfl) h

theorem body_append {m : List Char} (h : ∀ c ∈ m, isMargin c = true) (cs : List Char) :
    body (m ++ cs) = body cs := by
  induction m with
  | nil => rfl
  | cons c m ih =>
    obtain ⟨hc, hm⟩ := List.forall_mem_cons.mp h
    rw [← ih hm]
    simp [body, margin, hc]

theorem startsComment_body (cs : List Char) : startsComment (body cs) = startsComment cs := by
  rw [startsComment, startsComment]
  conv_rhs => rw [← margin_append_body cs, body_append (margin_isMargin cs)]

theorem any_body (cs : List Char) : (body cs).any isLineEnd = cs.any isLineEnd := by
  have hmargin : (margin cs).any isLineEnd = false :=
    List.any_eq_false.mpr fun c hc => by simp [isLineEnd_of_isMargin (margin_isMargin cs c hc)]
  conv_rhs => rw [← margin_append_body cs, List.any_append, hmargin, Bool.false_or]

theorem isMargin_false_of_lexeme {l : Lexeme} (h : lexeme c cs = l) (hb : l ≠ .blank) :
    isMargin c = false := by
  rw [Bool.eq_false_iff]
  intro hc
  exact hb (by rw [← h]; simp [lexeme, hc])

theorem body_of_lexeme {l : Lexeme} (h : lexeme c cs = l) (hb : l ≠ .blank) :
    body (c :: cs) = c :: cs := by
  simp [body, margin, isMargin_false_of_lexeme h hb]

theorem startsComment_of_lexeme {l : Lexeme} (h : lexeme c cs = l) (hb : l ≠ .blank)
    (hc : ∀ extra, l ≠ .token .comment extra) : startsComment (c :: cs) = false := by
  have hsharp : c ≠ '#' := by
    rintro rfl
    exact hc _ h.symm
  simp [startsComment, body_of_lexeme h hb, startsWith, hsharp]

theorem drop_commentLength_eq_nil_iff :
    cs.drop (commentLength cs) = [] ↔ cs.any isLineEnd = false := by
  rw [drop_commentLength, List.dropWhile_eq_nil_iff]
  simp

theorem Scanned.after_comment (h : Scanned line column (cs.drop (commentLength cs)) s tokens s') :
    cs.any isLineEnd = false ∧ tokens = [] ∧ s' = s ∨
      cs.any isLineEnd = true ∧ ∃ text, tokens = [onLine line column s.breakKind text] ∧
        s' = s.after s.breakKind text := by
  rw [← drop_commentLength_eq_nil_iff, ← Bool.not_eq_false, ← drop_commentLength_eq_nil_iff]
  cases hdrop : cs.drop (commentLength cs) with
  | nil =>
    rw [hdrop] at h
    cases h
    exact .inl ⟨rfl, rfl, rfl⟩
  | cons d rest =>
    have hend := lexeme_of_isLineEnd (isLineEnd_of_drop_commentLength hdrop) rest
    rw [hdrop] at h
    refine .inr ⟨List.cons_ne_nil d rest, d :: rest, ?_⟩
    cases h with
    | lineEnd => exact ⟨rfl, rfl⟩
    | blank hl | token hl | opening hl | join hl =>
      rw [hend] at hl
      cases hl

@[simp] theorem seesClosed_of_opened (s : State) : SeesClosed true s :=
  nofun

@[simp] theorem seesClosed_pending (pending : Pending) :
    SeesClosed opened { s with pending := pending } ↔ SeesClosed opened s :=
  Iff.rfl

theorem SeesClosed.breakKind (hs : SeesClosed opened s) (h : s.breakKind = .newline) :
    opened = true := by
  rw [← Bool.not_eq_false]
  intro hopened
  obtain ⟨-, hstart⟩ := hs hopened
  simp [State.breakKind, hstart] at h

theorem seesClosed_after_breakKind (line column : Nat) (text : List Char)
    (hs : opened = false → s.depth = 0) :
    SeesClosed (stillOpen opened (onLine line column s.breakKind text))
      (s.after s.breakKind text) := by
  intro hclosed
  rcases s.breakKind_cases with hk | hk
  · have hd : s.depth = 0 := by
      unfold State.breakKind at hk
      split at hk
      · cases hk
      · omega
    rw [hk]
    exact ⟨hd, rfl⟩
  · rw [hk] at hclosed ⊢
    exact ⟨hs (by simpa [stillOpen, onLine] using hclosed), rfl⟩

theorem Scanned.breaksCode_comment {text : List Char}
    (h : Scanned line column (cs.drop (commentLength cs)) (s.after .comment text) tokens s')
    (hs : SeesClosed opened s) (start : Nat) :
    (BreaksCode opened (onLine line start .comment text :: tokens) ↔
      ¬ (opened = false ∧ startsComment ('#' :: cs) = true ∧ ('#' :: cs).any isLineEnd = true)) ∧
    (SeesClosed ((onLine line start .comment text :: tokens).foldl stillOpen opened) s' ↔
      ¬ (opened = false ∧ startsComment ('#' :: cs) = true ∧
        ('#' :: cs).any isLineEnd = false)) := by
  have hcomment : startsComment ('#' :: cs) = true := rfl
  have hany : ('#' :: cs).any isLineEnd = cs.any isLineEnd := rfl
  have hkind : (onLine line start .comment text).kind ≠ .newline := nofun
  have hopen : stillOpen opened (onLine line start .comment text) = opened :=
    stillOpen_of_silent (by simp [onLine])
  rw [BreaksCode, List.foldl_cons, hopen, hcomment, hany]
  rcases h.after_comment with ⟨hnone, rfl, rfl⟩ | ⟨hsome, ending, rfl, rfl⟩
  · have hafter : ¬ SeesClosed false (s.after .comment text) := by
      intro h
      cases (h rfl).2
    cases opened <;> simp [BreaksCode, hkind, hnone, hafter]
  · have hafter := seesClosed_after_breakKind line column ending
      (fun hopened => show (s.after .comment text).depth = 0 from (hs hopened).1)
    rw [List.foldl_cons, List.foldl_nil, hsome]
    cases opened with
    | true => simp [BreaksCode, hafter]
    | false =>
      have hbreak : (s.after .comment text).breakKind = .newline := by
        have hd : (s.after .comment text).depth = 0 := (hs rfl).1
        have hstart : (s.after .comment text).atLineStart = false := rfl
        simp [State.breakKind, hd, hstart]
      have hnewline : (onLine line column Kind.newline ending).kind = .newline := rfl
      rw [hbreak] at hafter ⊢
      simp [BreaksCode, hkind, hnewline, hafter]

theorem Scanned.breaksCode (h : Scanned line column cs s tokens s') (hs : SeesClosed opened s) :
    (BreaksCode opened tokens ↔
      ¬ (opened = false ∧ startsComment cs = true ∧ cs.any isLineEnd = true)) ∧
    (SeesClosed (tokens.foldl stillOpen opened) s' ↔
      ¬ (opened = false ∧ startsComment cs = true ∧ cs.any isLineEnd = false)) := by
  induction h generalizing opened with
  | nil => simp [BreaksCode, startsComment, body, margin, startsWith, hs]
  | @blank column c cs s s' tokens h _ ih =>
    have hm := isMargin_of_lexeme h
    rw [startsComment_margin hm, List.any_cons, isLineEnd_of_isMargin hm, Bool.false_or]
    exact ih hs
  | @token column c cs s s' tokens kind extra h rest ih =>
    by_cases hk : kind = .comment
    · subst hk
      have hr := h ▸ reads_lexeme c cs
      cases hr with
      | comment hc =>
        subst hc
        exact rest.breaksCode_comment hs column
    · have hcode : kind ∈ codeKinds := by
        rcases kind_of_lexeme h with hcomment | rfl | rfl | rfl | rfl
        · exact absurd hcomment hk
        all_goals simp
      have hopen : stillOpen opened (onLine line column kind (c :: cs.take extra)) = true :=
        stillOpen_iff.mpr (.inl hcode)
      have hnewline : kind ≠ .newline := by
        rintro rfl
        simp at hcode
      have hfalse := startsComment_of_lexeme h (by simp) (by simp [hk])
      obtain ⟨hbreaks, hcloses⟩ := ih (seesClosed_of_opened _)
      rw [BreaksCode, List.foldl_cons, hopen, hbreaks, hcloses, hfalse]
      simp [onLine, hnewline]
  | @opening column c cs s close h =>
    have hfalse := startsComment_of_lexeme h (by simp) (by simp)
    rw [hfalse]
    simpa [BreaksCode] using hs
  | @lineEnd column c cs s h =>
    have hfalse := startsComment_of_lexeme h (by simp) (by simp)
    have hafter := seesClosed_after_breakKind line column (c :: cs) fun hopened => (hs hopened).1
    rw [hfalse]
    simpa [BreaksCode] using ⟨hs.breakKind, hafter⟩
  | @join column c cs s h =>
    have hfalse := startsComment_of_lexeme h (by simp) (by simp)
    rw [hfalse]
    simpa [BreaksCode] using hs

def AtCommentLine (opened : Bool) (s : State) (cs : List Char) : Prop :=
  opened = false ∧ (∀ start close text, s.pending ≠ .string start close text) ∧
    startsComment cs = true

theorem startsComment_of_startsBlankLine (h : startsBlankLine (body cs) = false) :
    startsComment cs = false := by
  unfold startsComment
  cases hb : body cs with
  | nil => rfl
  | cons c rest =>
    rw [hb, Bool.eq_false_iff, Ne, startsBlankLine_cons_iff, not_or] at h
    simpa [startsWith] using h.1

theorem Indented.seesClosed {m : List Char} (h : Indented line m s tokens s')
    (hs : SeesClosed opened s) : SeesClosed opened s' := by
  intro hopened
  obtain ⟨hd, hstart⟩ := hs hopened
  cases h with
  | deeper => exact ⟨hd, rfl⟩
  | @level closed kept =>
    refine ⟨hd, ?_⟩
    cases closed with
    | nil => simpa [State.atLineStart] using hstart
    | cons => simp [State.atLineStart]

theorem Indented.silent {m : List Char} (h : Indented line m s tokens s') :
    ∀ t ∈ tokens, t.kind ∈ silentKinds := by
  intro t ht
  have hsub : [Kind.indent, .dedent] ⊆ silentKinds := by simp
  exact hsub (h.of_mem ht).2

theorem blankLine_silent (h : blankLine line column cs s = .ok (tokens, s')) :
    ∀ t ∈ tokens, t.kind ∈ silentKinds := by
  intro t ht
  have hsub : [Kind.comment, .nl] ⊆ silentKinds := by simp
  exact hsub (of_mem_blankLine h ht).2

theorem SeesClosed.blankLine (hs : SeesClosed false s) (hb : startsBlankLine cs = true)
    (h : blankLine line column cs s = .ok (tokens, s')) :
    SeesClosed false s' ↔ ¬ (startsWith (· == '#') cs = true ∧ cs.any isLineEnd = false) := by
  simp only [Token.blankLine, Except.ok.injEq, Prod.mk.injEq] at h
  obtain ⟨-, rfl⟩ := h
  obtain ⟨hd, hstart⟩ := hs rfl
  cases cs with
  | nil => simpa [startsWith] using hs
  | cons c cs =>
    by_cases hc : isLineEnd c = true
    · have hsharp : c ≠ '#' := by
        rintro rfl
        cases hc
      simp [SeesClosed, hd, State.atLineStart, startsWith, hc, hsharp]
    · obtain rfl : c = '#' := (startsBlankLine_cons_iff.mp hb).resolve_right hc
      have hdrop : cs.drop (commentLength cs) = [] ↔ _ := drop_commentLength_eq_nil_iff
      rw [commentLength, runLength] at hdrop
      have hany : ('#' :: cs).any isLineEnd = cs.any isLineEnd := rfl
      rw [hany, ← hdrop]
      by_cases hending : cs.drop (cs.takeWhile (!isLineEnd ·)).length = []
      all_goals simp [SeesClosed, hd, State.atLineStart, startsWith, hc, hending]

theorem LineRead.breaksCode (h : LineRead line cs s tokens s') (hs : SeesClosed opened s) :
    (BreaksCode opened tokens ↔
      ¬ (AtCommentLine opened s cs ∧ s.pending = .join ∧ cs.any isLineEnd = true)) ∧
    (SeesClosed (tokens.foldl stillOpen opened) s' ↔
      ¬ (AtCommentLine opened s cs ∧ cs.any isLineEnd = false)) := by
  cases h with
  | closing hp hn rest =>
    have hopen : ∀ (u : Token), u.kind = .string → stillOpen opened u = true := by
      intro u hu
      exact stillOpen_iff.mpr (.inl (by simp [hu]))
    obtain ⟨hbreaks, hcloses⟩ := rest.breaksCode (seesClosed_of_opened _)
    rw [BreaksCode, List.foldl_cons, hopen _ rfl, hbreaks, hcloses]
    simp [AtCommentLine, hp]
  | inside hp => simpa [BreaksCode, AtCommentLine, hp] using hs
  | joined hp rest =>
    obtain ⟨hbreaks, hcloses⟩ := rest.breaksCode ((seesClosed_pending _).mpr hs)
    rw [hbreaks, hcloses]
    simp [AtCommentLine, hp, and_assoc]
  | nested hp hd rest =>
    have hopen : opened = true := by
      rw [← Bool.not_eq_false]
      intro hopened
      exact absurd (hs hopened).1 (Nat.pos_iff_ne_zero.mp hd)
    obtain ⟨hbreaks, hcloses⟩ := rest.breaksCode hs
    rw [hbreaks, hcloses]
    simp [AtCommentLine, hopen]
  | blank hp hd hb rest =>
    obtain ⟨hbreaks, hfold⟩ := breaksCode_of_silent opened (blankLine_silent rest)
    rw [hfold]
    cases opened with
    | true => simp [AtCommentLine, hbreaks]
    | false =>
      rw [hs.blankLine hb rest, any_body]
      simp [AtCommentLine, hp, hbreaks, startsComment]
  | @fresh indentation tokens s' s'' hp hd hb hi rest =>
    obtain ⟨hsilent, hfold⟩ := breaksCode_of_silent opened hi.silent
    obtain ⟨hbreaks, hcloses⟩ := rest.breaksCode (hi.seesClosed hs)
    have hfalse := startsComment_of_startsBlankLine hb
    rw [breaksCode_append, List.foldl_append, hfold, hbreaks, hcloses]
    simp [AtCommentLine, hsilent, hfalse, startsComment_body]

end Lines

section Runs

variable {before after : List (List Char)} {read final : List Token}

theorem statementMayFollow_iff_stillOpen (hl : lines source = before ++ after)
    (h : linesStep 1 before .start = .ok (read, s)) : StatementMayFollow before ↔
      (∀ start close text, s.pending ≠ .string start close text) ∧
        read.foldl stillOpen false = false := by
  obtain ⟨opened, htracks⟩ := tracks_of_linesStep hl h
  have hopen : read.foldl stillOpen false =
      ((lastLogical? read).map (decide <| · ≠ .newline)).getD false :=
    htracks.run.stillOpen_eq.symm.trans htracks.run.opened_eq
  rw [statementMayFollow_iff h, hopen]
  apply and_congr_right
  intro _
  cases lastLogical? read <;> simp

theorem joinsNext_iff (h : linesStep 1 before .start = .ok (read, s)) :
    JoinsNext before ↔ s.pending = .join := by
  constructor
  · rintro ⟨read', s', hread, hp⟩
    rw [h] at hread
    cases hread
    exact hp
  · exact fun hp => ⟨read, s, h, hp⟩

theorem EndsLine.any (h : EndsLine cs) : cs.any isLineEnd = true := by
  obtain ⟨body, -, rfl⟩ := h
  simp [isLineEnd]

theorem LineRead.breaksCode_after (h : LineRead (before.length + 1) cs s tokens s')
    (hl : lines source = before ++ after) (hread : linesStep 1 before .start = .ok (read, s))
    (hs : SeesClosed (read.foldl stillOpen false) s) :
    (BreaksCode false (read ++ tokens) ↔ BreaksCode false read ∧
      ¬ (StatementMayFollow before ∧ startsComment cs = true ∧ JoinsNext before ∧
        cs.any isLineEnd = true)) ∧
    (SeesClosed ((read ++ tokens).foldl stillOpen false) s' ↔
      ¬ (StatementMayFollow before ∧ startsComment cs = true ∧ cs.any isLineEnd = false)) := by
  have hat : AtCommentLine (read.foldl stillOpen false) s cs ↔
      StatementMayFollow before ∧ startsComment cs = true := by
    rw [AtCommentLine, statementMayFollow_iff_stillOpen hl hread, and_left_comm, and_assoc]
  obtain ⟨hbreaks, hcloses⟩ := h.breaksCode hs
  rw [breaksCode_append, List.foldl_append, hbreaks, hcloses, hat, joinsNext_iff hread,
    and_assoc, and_assoc]
  exact ⟨Iff.rfl, Iff.rfl⟩

theorem forall_split_iff {α : Type} {init : List α} {last : α} {P : List α → α → Prop} :
    (∀ before a after, init ++ [last] = before ++ a :: after → P before a) ↔
      (∀ before a after, init = before ++ a :: after → P before a) ∧ P init last := by
  constructor
  · intro h
    refine ⟨fun before a after heq => h before a (after ++ [last]) ?_, h init last [] rfl⟩
    rw [heq, List.append_assoc, List.cons_append]
  · rintro ⟨hinit, hlast⟩ before a after heq
    rcases Layout.eq_of_append_cons heq with ⟨rfl, rfl⟩ | ⟨rest, rfl, rfl⟩
    · exact hlast
    · exact hinit before a rest rfl

theorem breaksCode_of_linesStep (hl : lines source = before ++ after) (ha : after ≠ [])
    (h : linesStep 1 before .start = .ok (read, s)) :
    SeesClosed (read.foldl stillOpen false) s ∧ (BreaksCode false read ↔
      ∀ first line rest, before = first ++ line :: rest → ¬ MisreadComment first line) := by
  induction before using List.reverseRecOn generalizing after read s with
  | nil =>
    cases h
    exact ⟨fun _ => ⟨rfl, rfl⟩, by simp [BreaksCode]⟩
  | append_singleton before cs ih =>
    obtain ⟨read, t, here, hread, hline, rfl⟩ := exists_lineRead h
    rw [List.append_assoc] at hl
    have hany : cs.any isLineEnd = true := (endsLine_of_lines hl ha cs (by simp)).any
    obtain ⟨hcloses, hbreaks⟩ := ih hl (List.cons_ne_nil cs after) hread
    obtain ⟨hall, hafter⟩ := hline.breaksCode_after hl hread hcloses
    refine ⟨hafter.mpr (by simp [hany]), ?_⟩
    rw [hall, hbreaks, forall_split_iff]
    simp [MisreadComment, hany]

theorem breaksCode_impliedBreak (n : Nat) (last : List Char) :
    BreaksCode opened (impliedBreak n last s) ↔
      last = [] ∨ last.getLast? = some '\n' ∨ s.atLineStart = true ∨ opened = true := by
  unfold impliedBreak
  split
  · rename_i h
    simp only [BreaksCode, true_iff]
    rcases h with h | h | h
    · exact .inl h
    · exact .inr (.inl h)
    · exact .inr (.inr (.inl h))
  · rename_i h
    simp only [not_or] at h
    simp [BreaksCode, h]

theorem breaksCode_finish {n : Nat} {last : List Char} (h : finish n last s = .ok final) :
    BreaksCode opened final ↔
      last = [] ∨ last.getLast? = some '\n' ∨ s.atLineStart = true ∨ opened = true := by
  obtain ⟨-, -, rfl⟩ := finish_eq_ok_iff.mp h
  have hsilent : ∀ t ∈ List.replicate s.indents.length (onLine (n + 1) 0 .dedent []) ++
      [onLine (n + 1) 0 .endMarker []],
      t.kind ∈ silentKinds := by
    intro t ht
    rcases List.mem_append.mp ht with ht | ht
    · simp [List.eq_of_mem_replicate ht, onLine]
    · simp [List.mem_singleton.mp ht, onLine]
  rw [List.append_assoc, breaksCode_append, breaksCode_impliedBreak,
    and_iff_left (breaksCode_of_silent _ hsilent).1]

theorem breaksCode_of_tokenize (h : tokenize source = .ok tokens) : BreaksCode false tokens ↔
    ∀ before line after, lines source = before ++ line :: after → ¬ MisreadComment before line := by
  obtain ⟨read, s, final, hread, hfinal, rfl⟩ := tokenize_eq_ok_iff.mp h
  rw [breaksCode_append, breaksCode_finish hfinal]
  have hd := (finish_eq_ok_iff.mp hfinal).2.1
  rcases List.eq_nil_or_concat (lines source) with hnil | ⟨init, last, hlines⟩
  · rw [hnil] at hread ⊢
    cases hread
    simp [BreaksCode]
  · rw [List.concat_eq_append] at hlines
    rw [hlines] at hread ⊢
    obtain ⟨first, t, here, hfirst, hline, rfl⟩ := exists_lineRead hread
    obtain ⟨hcloses, hbreaks⟩ := breaksCode_of_linesStep hlines (List.cons_ne_nil last []) hfirst
    obtain ⟨hall, hafter⟩ := hline.breaksCode_after hlines hfirst hcloses
    have hlast : last ∈ lines source := by simp [hlines]
    have hend : (last = [] ∨ last.getLast? = some '\n' ∨ s.atLineStart = true ∨
        (first ++ here).foldl stillOpen false = true) ↔
          SeesClosed ((first ++ here).foldl stillOpen false) s := by
      constructor
      · rintro (rfl | hfeed | hstart | hopen)
        · exact absurd hlast (nil_notMem_lines source)
        · have hany : last.any isLineEnd = true :=
            List.any_eq_true.mpr ⟨_, List.mem_of_getLast? hfeed, rfl⟩
          exact hafter.mpr (by simp [hany])
        · exact fun _ => ⟨hd, hstart⟩
        · rw [hopen]
          exact seesClosed_of_opened s
      · intro h
        by_cases hopen : (first ++ here).foldl stillOpen false = true
        · exact .inr (.inr (.inr hopen))
        · exact .inr (.inr (.inl (h (Bool.eq_false_iff.mpr hopen)).2))
    rw [List.getLast?_concat, Option.getD_some, hend, hall, hafter, hbreaks, forall_split_iff,
      and_assoc, and_congr_right_iff]
    intro _
    rw [MisreadComment]
    cases last.any isLineEnd <;> simp

end Runs

section BlankLines

variable {before after : List (List Char)} {final : List Token}

theorem breaksCode_of_noCode
    (hcode : ∀ t ∈ tokens, t.kind ∉ codeKinds)
    (h : BreaksCode false tokens) :
    (∀ t ∈ tokens, t.kind ≠ .newline) ∧ tokens.foldl stillOpen false = false := by
  induction tokens with
  | nil => exact ⟨by simp, rfl⟩
  | cons t tokens ih =>
    obtain ⟨ht, hothers⟩ := List.forall_mem_cons.mp hcode
    have hopen : stillOpen false t = false := by
      rw [Bool.eq_false_iff, Ne, stillOpen_iff]
      simp [ht]
    rw [BreaksCode, hopen] at h
    obtain ⟨hnewline, hfold⟩ := ih hothers h.2
    refine ⟨List.forall_mem_cons.mpr ⟨fun hk => ?_, hnewline⟩, ?_⟩
    · cases h.1 hk
    · rwa [List.foldl_cons, hopen]

theorem breakKind_notMem (s : State) : s.breakKind ∉ codeKinds := by
  rcases s.breakKind_cases with h | h <;> simp [h]

theorem Scanned.noCode (h : Scanned line column cs s tokens s')
    (hb : startsBlankLine (body cs) = true) :
    ∀ t ∈ tokens, t.kind ∉ codeKinds := by
  induction h with
  | nil | opening | join => simp
  | @blank column c cs s s' tokens h _ ih =>
    have hbody : body ([c] ++ cs) = body cs :=
      body_append (List.forall_mem_singleton.mpr (isMargin_of_lexeme h)) cs
    exact ih (hbody ▸ hb)
  | @token column c cs s s' tokens kind extra h rest ih =>
    rw [body_of_lexeme h (by simp), startsBlankLine_cons_iff] at hb
    obtain rfl | hend := hb
    · cases h
      rw [List.forall_mem_cons]
      refine ⟨by simp [onLine], ?_⟩
      rcases rest.after_comment with ⟨-, rfl, -⟩ | ⟨-, text, rfl, -⟩
      · simp
      · exact List.forall_mem_singleton.mpr (breakKind_notMem _)
    · rw [lexeme_of_isLineEnd hend] at h
      cases h
  | lineEnd => exact List.forall_mem_singleton.mpr (breakKind_notMem _)

theorem LineRead.noCode (h : LineRead line cs s tokens s')
    (hp : ∀ start close text, s.pending ≠ .string start close text)
    (hb : startsBlankLine (body cs) = true) :
    ∀ t ∈ tokens, t.kind ∉ codeKinds := by
  cases h with
  | closing hs | inside hs => exact absurd hs (hp _ _ _)
  | joined _ rest | nested _ _ rest => exact rest.noCode hb
  | blank _ _ _ rest =>
    intro t ht
    have hsilent := (of_mem_blankLine rest ht).2
    simp only [List.mem_cons, List.not_mem_nil, or_false] at hsilent
    rcases hsilent with hk | hk <;> simp [hk]
  | fresh _ _ hb' =>
    rw [hb] at hb'
    cases hb'

theorem finish_noCode {n : Nat} {last : List Char} (h : finish n last s = .ok final) :
    ∀ t ∈ final, t.kind ∉ codeKinds := by
  intro t ht
  have hk := kind_of_finish h t ht
  simp only [List.mem_cons, List.not_mem_nil, or_false] at hk
  rcases hk with hk | hk | hk <;> simp [hk]

theorem start_line_ne_of_breaksCode (h : tokenize source = .ok tokens)
    (hbreaks : BreaksCode false tokens) {cs : List Char}
    (hl : lines source = before ++ cs :: after) (hm : StatementMayFollow before)
    (hb : startsBlankLine (body cs) = true) (ht : t ∈ tokens) (hk : t.kind = .newline) :
    t.start.line ≠ before.length + 1 := by
  intro hline
  obtain ⟨read, s, _, s', final, hread, hrest, hfinal, rfl⟩ := exists_reading h hl
  obtain ⟨hstring, hopen⟩ := (statementMayFollow_iff_stillOpen hl hread).mp hm
  have hstring' : t.kind ≠ .string := by simp [hk]
  cases hrest with
  | @cons _ _ _ _ s₁ _ here others head tail =>
    rw [List.append_assoc, breaksCode_append, breaksCode_append, hopen] at hbreaks
    obtain ⟨-, hhere, hlater⟩ := hbreaks
    obtain ⟨hnone, hclosed⟩ := breaksCode_of_noCode (head.noCode hstring hb) hhere
    rw [hclosed] at hlater
    simp only [List.mem_append] at ht
    rcases ht with ht | (ht | ht) | ht
    · have hbound := (linesRead_of_linesStep hread).start_line ht hstring'
      omega
    · exact hnone t ht hk
    · have hbound := tail.start_line ht hstring'
      omega
    · have hlast := start_line_of_finish hfinal t ht
      rw [if_pos hk, hl, List.length_append, List.length_cons] at hlast
      obtain rfl : after = [] := List.length_eq_zero_iff.mp (by omega)
      cases tail
      exact (breaksCode_of_noCode (finish_noCode hfinal) hlater).1 t ht hk

theorem breaksEndCode_iff_breaksCode (h : tokenize source = .ok tokens) :
    BreaksEndCode source tokens ↔ BreaksCode false tokens := by
  constructor
  · intro hbreaks
    rw [breaksCode_iff]
    intro before t after heq hk
    exact foldl_stillOpen_iff.mpr (hbreaks.code before t after heq hk)
  · intro hbreaks
    refine ⟨fun before t after heq hk => ?_, fun before line after hl hm hb t ht hk => ?_⟩
    · exact foldl_stillOpen_iff.mp (breaksCode_iff.mp hbreaks before t after heq hk)
    · exact start_line_ne_of_breaksCode h hbreaks hl hm hb ht hk

end BlankLines

theorem breaksEndCode_iff (h : tokenize source = .ok tokens) : BreaksEndCode source tokens ↔
    ∀ before line after, lines source = before ++ line :: after → ¬ MisreadComment before line :=
  (breaksEndCode_iff_breaksCode h).trans (breaksCode_of_tokenize h)

/-- The first comment is part of the line of code above it, and the second stands alone. -/
theorem breaksEndCode_of_two_comments : ∃ tokens,
    tokenize "x = 1 + \\\n# c\n# d\n".toList = .ok tokens ∧
    tokens.map (·.kind) = [.name, .op, .number, .op, .comment, .newline, .comment, .nl,
      .endMarker] ∧
    BreaksEndCode "x = 1 + \\\n# c\n# d\n".toList tokens := by
  refine ⟨_, rfl, rfl, ?_⟩
  apply (breaksEndCode_iff rfl).mpr
  have hlines : lines "x = 1 + \\\n# c\n# d\n".toList =
      [] ++ ["x = 1 + \\\n".toList] ++ ["# c\n".toList] ++ ["# d\n".toList] := rfl
  rw [hlines, forall_split_iff, forall_split_iff, forall_split_iff]
  refine ⟨⟨⟨by simp, ?_⟩, ?_⟩, ?_⟩
  · rintro ⟨-, hcomment, -⟩
    cases hcomment
  · rintro ⟨hfollow, -⟩
    have hlast := ((statementMayFollow_iff rfl).mp hfollow).2
    exact absurd hlast (by decide)
  · rintro ⟨-, -, hjoins | hany⟩
    · cases (joinsNext_iff rfl).mp hjoins
    · cases hany

theorem not_breaksEndCode_of_last_comment : ∃ tokens,
    tokenize "# c".toList = .ok tokens ∧ ⟨.newline, [], ⟨1, 3⟩, ⟨1, 4⟩⟩ ∈ tokens ∧
    ¬ BreaksEndCode "# c".toList tokens := by
  refine ⟨_, rfl, by decide, ?_⟩
  intro h
  have hcode := h.code [⟨.comment, "# c".toList, ⟨1, 0⟩, ⟨1, 3⟩⟩]
    ⟨.newline, [], ⟨1, 3⟩, ⟨1, 4⟩⟩ [⟨.endMarker, [], ⟨2, 0⟩, ⟨2, 0⟩⟩] rfl rfl
  cases foldl_stillOpen_iff.mpr hcode

end StyleCheck.Token
