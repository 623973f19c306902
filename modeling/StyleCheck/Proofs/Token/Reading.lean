import StyleCheck.Proofs.Traversal
import StyleCheck.Token.Stream

/-!
How a text is read, as relations between what is left, the state, and the tokens: one for the rest
of a line, one for a line, one for several lines. Each holds where the function it describes
succeeds.
-/

namespace StyleCheck.Token

def onLine (line column : Nat) (kind : Kind) (text : List Char) : Token :=
  ⟨kind, text, ⟨line, column⟩, ⟨line, column + Text.width text⟩⟩

theorem State.breakKind_cases (s : State) : s.breakKind = .newline ∨ s.breakKind = .nl := by
  unfold breakKind
  split
  · exact .inr rfl
  · exact .inl rfl

theorem Step.cons_eq_ok_iff {token : Token} {step : Step} {tokens : List Token} {s : State} :
    Step.cons token step = .ok (tokens, s) ↔
      ∃ others, step = .ok (others, s) ∧ tokens = token :: others := by
  cases step with
  | error e => simp [Step.cons, Except.map]
  | ok result =>
    obtain ⟨others, t⟩ := result
    simp only [Step.cons, Except.map, Except.ok.injEq, Prod.mk.injEq]
    constructor
    · rintro ⟨rfl, rfl⟩
      exact ⟨others, ⟨rfl, rfl⟩, rfl⟩
    · rintro ⟨_, ⟨rfl, rfl⟩, rfl⟩
      exact ⟨rfl, rfl⟩

/-- The rest of a line from a column on: the state before, the tokens, and the state after. -/
inductive Scanned (line : Nat) : Nat → List Char → State → List Token → State → Prop
  | nil {column : Nat} {s : State} : Scanned line column [] s [] s
  | blank {column : Nat} {c : Char} {cs : List Char} {s s' : State} {tokens : List Token}
      (h : lexeme c cs = .blank) (rest : Scanned line (column + c.utf8Size) cs s tokens s') :
      Scanned line column (c :: cs) s tokens s'
  | token {column : Nat} {c : Char} {cs : List Char} {s s' : State} {tokens : List Token}
      {kind : Kind} {extra : Nat} (h : lexeme c cs = .token kind extra)
      (rest : Scanned line (column + Text.width (c :: cs.take extra)) (cs.drop extra)
        (s.after kind (c :: cs.take extra)) tokens s') :
      Scanned line column (c :: cs) s (onLine line column kind (c :: cs.take extra) :: tokens) s'
  | opening {column : Nat} {c : Char} {cs : List Char} {s : State} {close : List Char}
      (h : lexeme c cs = .opening close) :
      Scanned line column (c :: cs) s [] { s with pending := .string ⟨line, column⟩ close (c :: cs) }
  | lineEnd {column : Nat} {c : Char} {cs : List Char} {s : State} (h : lexeme c cs = .lineEnd) :
      Scanned line column (c :: cs) s [onLine line column s.breakKind (c :: cs)]
        (s.after s.breakKind (c :: cs))
  | join {column : Nat} {c : Char} {cs : List Char} {s : State} (h : lexeme c cs = .join) :
      Scanned line column (c :: cs) s [] { s with pending := .join }

theorem scanned_of_scan {line skip column : Nat} {cs : List Char} {s s' : State}
    {tokens : List Token} (h : scan line skip column cs s = .ok (tokens, s')) :
    Scanned line (column + Text.width (cs.take skip)) (cs.drop skip) s tokens s' := by
  induction cs generalizing skip column s tokens with
  | nil =>
    simp only [scan, Except.ok.injEq, Prod.mk.injEq] at h
    obtain ⟨rfl, rfl⟩ := h
    simpa using Scanned.nil
  | cons c cs ih =>
    cases skip with
    | succ skip =>
      have := ih h
      simpa [Text.width, Nat.add_assoc] using this
    | zero =>
      simp only [List.take_zero, List.drop_zero, Text.width, Nat.add_zero]
      cases hl : lexeme c cs with
      | blank =>
        simp only [scan, hl] at h
        exact .blank hl (by simpa [Text.width] using ih h)
      | token kind extra =>
        simp only [scan, hl] at h
        obtain ⟨others, hs, rfl⟩ := Step.cons_eq_ok_iff.1 h
        refine .token hl ?_
        have := ih hs
        simpa only [Text.width, Nat.add_assoc] using this
      | opening close =>
        simp only [scan, hl, Except.ok.injEq, Prod.mk.injEq] at h
        obtain ⟨rfl, rfl⟩ := h
        exact .opening hl
      | lineEnd =>
        simp only [scan, hl, Except.ok.injEq, Prod.mk.injEq] at h
        obtain ⟨rfl, rfl⟩ := h
        exact .lineEnd hl
      | join =>
        simp only [scan, hl, Except.ok.injEq, Prod.mk.injEq] at h
        obtain ⟨rfl, rfl⟩ := h
        exact .join hl
      | stray fault => simp [scan, hl] at h

theorem scan_eq_ok_iff {line column : Nat} {cs : List Char} {s s' : State} {tokens : List Token} :
    scan line 0 column cs s = .ok (tokens, s') ↔ Scanned line column cs s tokens s' := by
  constructor
  · intro h
    simpa [Text.width] using scanned_of_scan h
  · intro h
    induction h with
    | nil => rfl
    | blank h _ ih => simpa only [scan, h] using ih
    | token h _ ih =>
      rw [scan_token h, ih]
      rfl
    | opening h => simp only [scan, h]
    | lineEnd h => simp only [scan, h, onLine]
    | join h => simp only [scan, h]

inductive Indented (line : Nat) (margin : List Char) (s : State) : List Token → State → Prop
  | deeper (h : s.indents.headD 0 < indentColumn margin) :
      Indented line margin s [onLine line 0 .indent margin]
        { s with indents := indentColumn margin :: s.indents, last := some .indent }
  | level {closed kept : List Nat} (h : s.indents = closed ++ kept)
      (hc : ∀ column ∈ closed, indentColumn margin < column)
      (hk : kept.headD 0 = indentColumn margin) :
      Indented line margin s
        (List.replicate closed.length (onLine line (Text.width margin) .dedent []))
        { s with indents := kept, last := if closed = [] then s.last else some .dedent }

theorem indented_of_indentStep {line : Nat} {margin : List Char} {s s' : State}
    {tokens : List Token} (h : indentStep line margin s = .ok (tokens, s')) :
    Indented line margin s tokens s' := by
  simp only [indentStep] at h
  split at h
  · rename_i hd
    simp only [Except.ok.injEq, Prod.mk.injEq] at h
    obtain ⟨rfl, rfl⟩ := h
    have ht : onLine line 0 .indent margin =
        ⟨.indent, margin, ⟨line, 0⟩, ⟨line, Text.width margin⟩⟩ := by
      simp [onLine]
    exact ht ▸ .deeper hd
  · split at h
    · rename_i hk
      simp only [Except.ok.injEq, Prod.mk.injEq] at h
      obtain ⟨rfl, rfl⟩ := h
      let closed := s.indents.takeWhile (indentColumn margin < ·)
      let kept := s.indents.dropWhile (indentColumn margin < ·)
      have hs : s.indents = closed ++ kept := (List.takeWhile_append_dropWhile).symm
      have hl : s.indents.length - kept.length = closed.length := by
        rw [hs, List.length_append]
        omega
      have hc : ∀ column ∈ closed, indentColumn margin < column := by
        intro column hm
        simpa using List.all_eq_true.1 List.all_takeWhile column hm
      have this : Indented line margin s _ _ := .level hs hc hk
      simp only [← List.length_eq_zero_iff, ← hl] at this
      exact this
    · simp at h

theorem Indented.pending {line : Nat} {m : List Char} {s s' : State} {tokens : List Token}
    (h : Indented line m s tokens s') : s'.pending = s.pending := by
  cases h <;> rfl

def margin (cs : List Char) : List Char :=
  cs.takeWhile isMargin

def body (cs : List Char) : List Char :=
  cs.drop (margin cs).length

theorem margin_append_body (cs : List Char) : margin cs ++ body cs = cs :=
  List.prefix_iff_eq_append.1 (List.takeWhile_prefix isMargin)

theorem margin_isMargin (cs : List Char) : ∀ c ∈ margin cs, isMargin c = true :=
  List.all_eq_true.1 List.all_takeWhile

theorem startsBlankLine_cons_iff {c : Char} {cs : List Char} :
    startsBlankLine (c :: cs) = true ↔ c = '#' ∨ isLineEnd c = true := by
  simp [startsBlankLine, startsWith]

theorem blankLine_eq_ok {line column : Nat} {cs : List Char} {s s' : State} {tokens : List Token}
    (h : blankLine line column cs s = .ok (tokens, s')) :
    ∃ comment ending, cs = comment ++ ending ∧
      tokens = (if comment = [] then [] else [onLine line column .comment comment]) ++
        (if ending = [] then []
          else [onLine line (column + Text.width comment) .nl ending]) ∧
      s' = { s with last := (tokens.getLast?.map (·.kind)).or s.last } := by
  simp only [blankLine, Except.ok.injEq, Prod.mk.injEq] at h
  obtain ⟨rfl, rfl⟩ := h
  have hc : cs.takeWhile (!isLineEnd ·) ++ cs.drop (cs.takeWhile (!isLineEnd ·)).length = cs :=
    List.prefix_iff_eq_append.1 (List.takeWhile_prefix _)
  exact ⟨_, _, hc.symm, rfl, rfl⟩

inductive LineRead (line : Nat) (cs : List Char) (s : State) : List Token → State → Prop
  | closing {start : Position} {close text : List Char} {n : Nat} {tokens : List Token} {s' : State}
      (hp : s.pending = .string start close text) (hn : closing? close cs = some n)
      (rest : Scanned line (Text.width (cs.take n)) (cs.drop n)
        { s with pending := .nothing, last := some .string } tokens s') :
      LineRead line cs s
        (⟨.string, text ++ cs.take n, start, ⟨line, Text.width (cs.take n)⟩⟩ :: tokens) s'
  | inside {start : Position} {close text : List Char}
      (hp : s.pending = .string start close text) (hn : closing? close cs = none) :
      LineRead line cs s [] { s with pending := .string start close (text ++ cs) }
  | joined {tokens : List Token} {s' : State} (hp : s.pending = .join)
      (rest : Scanned line 0 cs { s with pending := .nothing } tokens s') :
      LineRead line cs s tokens s'
  | nested {tokens : List Token} {s' : State} (hp : s.pending = .nothing) (hd : 0 < s.depth)
      (rest : Scanned line 0 cs s tokens s') : LineRead line cs s tokens s'
  | blank {tokens : List Token} {s' : State} (hp : s.pending = .nothing) (hd : s.depth = 0)
      (hb : startsBlankLine (body cs) = true)
      (rest : blankLine line (Text.width (margin cs)) (body cs) s = .ok (tokens, s')) :
      LineRead line cs s tokens s'
  | fresh {indentation tokens : List Token} {s' s'' : State} (hp : s.pending = .nothing)
      (hd : s.depth = 0) (hb : startsBlankLine (body cs) = false)
      (hi : Indented line (margin cs) s indentation s')
      (rest : Scanned line (Text.width (margin cs)) (body cs) s' tokens s'') :
      LineRead line cs s (indentation ++ tokens) s''

theorem lineRead_of_lineStep {line : Nat} {cs : List Char} {s s' : State} {tokens : List Token}
    (h : lineStep line cs s = .ok (tokens, s')) : LineRead line cs s tokens s' := by
  unfold lineStep at h
  cases hp : s.pending with
  | string start close text =>
    simp only [hp] at h
    cases hn : closing? close cs with
    | some n =>
      simp only [hn] at h
      obtain ⟨others, hs, rfl⟩ := Step.cons_eq_ok_iff.1 h
      exact .closing hp hn (scan_eq_ok_iff.1 hs)
    | none =>
      simp only [hn, Except.ok.injEq, Prod.mk.injEq] at h
      obtain ⟨rfl, rfl⟩ := h
      exact .inside hp hn
  | join =>
    simp only [hp] at h
    exact .joined hp (scan_eq_ok_iff.1 h)
  | nothing =>
    simp only [hp] at h
    split at h
    · exact .nested hp ‹_› (scan_eq_ok_iff.1 h)
    · have hd : s.depth = 0 := by omega
      simp only [freshLine] at h
      split at h
      · exact .blank hp hd ‹_› h
      · rename_i hb
        obtain ⟨⟨indentation, t⟩, hi, h⟩ := Except.bind_eq_ok_iff.1 h
        obtain ⟨⟨others, t'⟩, hs, h⟩ := Except.bind_eq_ok_iff.1 h
        simp only [Except.ok.injEq, Prod.mk.injEq] at h
        obtain ⟨rfl, rfl⟩ := h
        exact .fresh hp hd (Bool.eq_false_iff.2 hb) (indented_of_indentStep hi)
          (scan_eq_ok_iff.1 hs)

inductive LinesRead : Nat → List (List Char) → State → List Token → State → Prop
  | nil {line : Nat} {s : State} : LinesRead line [] s [] s
  | cons {line : Nat} {cs : List Char} {rest : List (List Char)} {s s' s'' : State}
      {tokens others : List Token} (head : LineRead line cs s tokens s')
      (tail : LinesRead (line + 1) rest s' others s'') :
      LinesRead line (cs :: rest) s (tokens ++ others) s''

theorem linesRead_of_linesStep {line : Nat} {lines : List (List Char)} {s s' : State}
    {tokens : List Token} (h : linesStep line lines s = .ok (tokens, s')) :
    LinesRead line lines s tokens s' := by
  induction lines generalizing line s tokens with
  | nil =>
    simp only [linesStep, Except.ok.injEq, Prod.mk.injEq] at h
    obtain ⟨rfl, rfl⟩ := h
    exact .nil
  | cons cs rest ih =>
    obtain ⟨⟨first, t⟩, hf, h⟩ := Except.bind_eq_ok_iff.1 h
    obtain ⟨⟨others, t'⟩, ho, h⟩ := Except.bind_eq_ok_iff.1 h
    simp only [Except.ok.injEq, Prod.mk.injEq] at h
    obtain ⟨rfl, rfl⟩ := h
    exact .cons (lineRead_of_lineStep hf) (ih ho)

theorem finish_eq_ok_iff {line : Nat} {last : List Char} {s : State} {tokens : List Token} :
    finish line last s = .ok tokens ↔ s.pending = .nothing ∧ s.depth = 0 ∧
      tokens = impliedBreak line last s ++
        List.replicate s.indents.length (onLine (line + 1) 0 .dedent []) ++
        [onLine (line + 1) 0 .endMarker []] := by
  unfold finish
  cases hp : s.pending with
  | string start close text => simp
  | join => simp
  | nothing =>
    by_cases hd : 0 < s.depth
    · simp [hd]
      omega
    · have : s.depth = 0 := by omega
      simp [this, onLine, Text.width, eq_comm]

theorem tokenize_eq_ok_iff {source : List Char} {tokens : List Token} :
    tokenize source = .ok tokens ↔ ∃ read s final,
      linesStep 1 (Text.lines source) .start = .ok (read, s) ∧
      finish (Text.lines source).length ((Text.lines source).getLast?.getD []) s = .ok final ∧
      tokens = read ++ final := by
  simp only [tokenize]
  constructor
  · intro h
    obtain ⟨⟨read, s⟩, hr, h⟩ := Except.bind_eq_ok_iff.1 h
    obtain ⟨final, hf, h⟩ := Except.bind_eq_ok_iff.1 h
    simp only [Except.ok.injEq] at h
    exact ⟨read, s, final, hr, hf, h.symm⟩
  · rintro ⟨read, s, final, hr, hf, rfl⟩
    rw [hr]
    simp only [bind, Except.bind]
    rw [hf]

end StyleCheck.Token
