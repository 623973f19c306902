import StyleCheck.Proofs.Token.Reading

namespace StyleCheck.Token

namespace Step

def append (step : Step) (next : State → Step) : Step := do
  let (tokens, s) ← step
  let (others, s) ← next s
  .ok (tokens ++ others, s)

def complete (step : Step) (line : Nat) (last : List Char) : Except SyntaxError (List Token) := do
  let (tokens, s) ← step
  let final ← finish line last s
  .ok (tokens ++ final)

theorem append_ok (tokens : List Token) (s : State) (next : State → Step) :
    append (.ok (tokens, s)) next = (next s).map fun result => (tokens ++ result.1, result.2) := by
  change (next s >>= fun result => Except.ok (tokens ++ result.1, result.2)) = _
  cases next s <;> rfl

theorem append_eq_ok_iff {step : Step} {next : State → Step} {tokens : List Token} {s'' : State} :
    step.append next = .ok (tokens, s'') ↔ ∃ read s' others, step = .ok (read, s') ∧
      next s' = .ok (others, s'') ∧ tokens = read ++ others := by
  simp only [append, Except.bind_eq_ok_iff, Prod.exists, Except.ok.injEq, Prod.mk.injEq]
  constructor
  · rintro ⟨read, s', hread, others, t, hothers, rfl, rfl⟩
    exact ⟨read, s', others, hread, hothers, rfl⟩
  · rintro ⟨read, s', others, hread, hothers, rfl⟩
    exact ⟨read, s', hread, others, s'', hothers, rfl, rfl⟩

theorem append_assoc (step : Step) (next after : State → Step) :
    (step.append next).append after = step.append fun s => (next s).append after := by
  cases step with
  | error e => rfl
  | ok result =>
    obtain ⟨tokens, s⟩ := result
    rw [append_ok, append_ok]
    cases next s with
    | error e => rfl
    | ok result =>
      obtain ⟨others, t⟩ := result
      change append (.ok (tokens ++ others, t)) after = _
      rw [append_ok, append_ok]
      cases after t with
      | error e => rfl
      | ok result => simp only [Except.map, List.append_assoc]

theorem complete_ok (tokens : List Token) (s : State) (line : Nat) (last : List Char) :
    complete (.ok (tokens, s)) line last = (finish line last s).map (tokens ++ ·) := by
  change (finish line last s >>= fun final => Except.ok (tokens ++ final)) = _
  cases finish line last s <;> rfl

theorem complete_append_ok (tokens : List Token) (s : State) (next : State → Step) (line : Nat)
    (last : List Char) : (append (.ok (tokens, s)) next).complete line last =
      ((next s).complete line last).map (tokens ++ ·) := by
  rw [append_ok]
  cases next s with
  | error e => rfl
  | ok result =>
    obtain ⟨others, t⟩ := result
    change complete (.ok (tokens ++ others, t)) line last = _
    rw [complete_ok, complete_ok]
    cases finish line last t with
    | error e => rfl
    | ok final => simp only [Except.map, List.append_assoc]

end Step

theorem freshLine_eq (line : Nat) (cs : List Char) (s : State) : freshLine line cs s =
    if startsBlankLine (cs.drop (cs.takeWhile isMargin).length) then
      blankLine line (Text.width (cs.takeWhile isMargin))
        (cs.drop (cs.takeWhile isMargin).length) s
    else (indentStep line (cs.takeWhile isMargin) s).append
      (scan line 0 (Text.width (cs.takeWhile isMargin))
        (cs.drop (cs.takeWhile isMargin).length)) :=
  rfl

def blankTokens (line column : Nat) (cs : List Char) : List Token :=
  let comment := cs.takeWhile (!isLineEnd ·)
  let ending := cs.drop comment.length
  (if comment = [] then [] else [onLine line column .comment comment]) ++
    (if ending = [] then [] else [onLine line (column + Text.width comment) .nl ending])

theorem blankLine_eq (line column : Nat) (cs : List Char) (s : State) :
    blankLine line column cs s = .ok (blankTokens line column cs,
      { s with last := ((blankTokens line column cs).getLast?.map (·.kind)).or s.last }) :=
  rfl

theorem getLast?_map_kind {f : Token → Token} (hf : ∀ t, (f t).kind = t.kind)
    (tokens : List Token) :
    (tokens.map f).getLast?.map (·.kind) = tokens.getLast?.map (·.kind) := by
  rw [List.getLast?_map, Option.map_map]
  apply Option.map_congr
  intro t _
  exact hf t

theorem linesStep_cons (line : Nat) (cs : List Char) (rest : List (List Char)) (s : State) :
    linesStep line (cs :: rest) s = (lineStep line cs s).append (linesStep (line + 1) rest) :=
  rfl

theorem linesStep_append (line : Nat) (before rest : List (List Char)) (s : State) :
    linesStep line (before ++ rest) s =
      (linesStep line before s).append (linesStep (line + before.length) rest) := by
  induction before generalizing line s with
  | nil =>
    change linesStep line rest s = Step.append (.ok ([], s)) (linesStep line rest)
    rw [Step.append_ok]
    cases linesStep line rest s <;> rfl
  | cons cs before ih =>
    have hline : line + (cs :: before).length = line + 1 + before.length := by
      rw [List.length_cons]
      omega
    rw [List.cons_append, linesStep_cons, linesStep_cons, Step.append_assoc, hline]
    congr 1
    funext t
    exact ih (line + 1) t

theorem tokenize_eq (source : List Char) : tokenize source =
    (linesStep 1 (Text.lines source) .start).complete (Text.lines source).length
      ((Text.lines source).getLast?.getD []) :=
  rfl

/-- What the second reading makes of a token and of an error of the first, and which states of the
two belong together. -/
structure Parallel where
  token : Token → Token
  error : SyntaxError → SyntaxError
  Joins : State → State → Prop

namespace Parallel

def result (p : Parallel) (x : Except SyntaxError (List Token)) :
    Except SyntaxError (List Token) :=
  (x.map (List.map p.token)).mapError p.error

theorem result_ok (p : Parallel) (tokens : List Token) :
    p.result (.ok tokens) = .ok (tokens.map p.token) :=
  rfl

inductive Steps (p : Parallel) : Step → Step → Prop
  | ok {tokens : List Token} {s s' : State} (h : p.Joins s s') :
      Steps p (.ok (tokens, s)) (.ok (tokens.map p.token, s'))
  | error {e : SyntaxError} : Steps p (.error e) (.error (p.error e))

variable {p : Parallel} {x y : Step}

theorem Steps.ok_of_eq {tokens others : List Token} {s s' : State}
    (ht : others = tokens.map p.token) (hs : p.Joins s s') :
    p.Steps (.ok (tokens, s)) (.ok (others, s')) := by
  rw [ht]
  exact .ok hs

theorem Steps.cons {t u : Token} (ht : u = p.token t) (h : p.Steps x y) :
    p.Steps (.cons t x) (.cons u y) := by
  rw [ht]
  cases h with
  | ok hs => exact .ok hs
  | error => exact .error

theorem Steps.append (h : p.Steps x y) {f g : State → Step}
    (hfg : ∀ s s', p.Joins s s' → p.Steps (f s) (g s')) : p.Steps (x.append f) (y.append g) := by
  cases h with
  | error => exact .error
  | @ok tokens s s' hs =>
    rw [Step.append_ok, Step.append_ok]
    have hnext := hfg s s' hs
    generalize f s = a at hnext
    generalize g s' = b at hnext
    cases hnext with
    | error => exact .error
    | ok ht =>
      simp only [Except.map, ← List.map_append]
      exact .ok ht

theorem Steps.complete (h : p.Steps x y) {line line' : Nat} {last last' : List Char}
    (hf : ∀ s s', p.Joins s s' → finish line' last' s' = p.result (finish line last s)) :
    y.complete line' last' = p.result (x.complete line last) := by
  cases h with
  | error => rfl
  | @ok tokens s s' hs =>
    rw [Step.complete_ok, Step.complete_ok, hf s s' hs]
    cases finish line last s with
    | error e => rfl
    | ok final => simp only [result_ok, Except.map, List.map_append]

end Parallel

structure Alike (f : Pending → Pending) (s s' : State) : Prop where
  indents_eq : s'.indents = s.indents
  depth_eq : s'.depth = s.depth
  pending_eq : s'.pending = f s.pending
  atLineStart_eq : s'.atLineStart = s.atLineStart

namespace Alike

variable {f : Pending → Pending} {s s' : State} {p : Parallel} {line line' : Nat}

theorem after (h : Alike f s s') (kind : Kind) (text : List Char) :
    Alike f (s.after kind text) (s'.after kind text) := by
  refine ⟨h.indents_eq, ?_, h.pending_eq, rfl⟩
  simp only [State.after, h.depth_eq]

theorem after_ne (h : Alike f s s') {kind : Kind} (hk : kind ≠ .op) (text text' : List Char) :
    Alike f (s.after kind text) (s'.after kind text') := by
  refine ⟨h.indents_eq, ?_, h.pending_eq, rfl⟩
  simp only [State.after, if_neg hk, h.depth_eq]

theorem withPending (h : Alike f s s') {pending pending' : Pending} (hp : pending' = f pending) :
    Alike f { s with pending := pending } { s' with pending := pending' } :=
  ⟨h.indents_eq, h.depth_eq, hp, h.atLineStart_eq⟩

theorem breakKind_eq (h : Alike f s s') : s'.breakKind = s.breakKind := by
  simp only [State.breakKind, h.depth_eq, h.atLineStart_eq]

theorem steps_indentStep (h : Alike f s s') {margin : List Char}
    (hindent : p.token ⟨.indent, margin, ⟨line, 0⟩, ⟨line, Text.width margin⟩⟩ =
      ⟨.indent, margin, ⟨line', 0⟩, ⟨line', Text.width margin⟩⟩)
    (hdedent : p.token (onLine line (Text.width margin) .dedent []) =
      onLine line' (Text.width margin) .dedent [])
    (herror : p.error ⟨⟨line, Text.width margin⟩, .unmatchedDedent⟩ =
      ⟨⟨line', Text.width margin⟩, .unmatchedDedent⟩)
    (hjoins : ∀ t t', t.pending = s.pending → Alike f t t' → p.Joins t t') :
    p.Steps (indentStep line margin s) (indentStep line' margin s') := by
  simp only [indentStep, h.indents_eq]
  generalize s.indents.length - (s.indents.dropWhile (indentColumn margin < ·)).length = closed
  split
  · apply Parallel.Steps.ok_of_eq
    · rw [List.map_singleton, hindent]
    · exact hjoins _ _ rfl ⟨rfl, h.depth_eq, h.pending_eq, rfl⟩
  · split
    · apply Parallel.Steps.ok_of_eq
      · rw [List.map_replicate]
        exact congrArg (List.replicate closed) hdedent.symm
      · refine hjoins _ _ rfl ⟨rfl, h.depth_eq, h.pending_eq, ?_⟩
        by_cases hclosed : closed = 0
        · simp only [State.atLineStart, if_pos hclosed]
          exact h.atLineStart_eq
        · simp only [State.atLineStart, if_neg hclosed]
    · rw [← herror]
      exact .error

theorem steps_blankLine (h : Alike f s s') {column : Nat} {cs cs' : List Char}
    (htokens : blankTokens line' column cs' = (blankTokens line column cs).map p.token)
    (hkind : ∀ t, (p.token t).kind = t.kind)
    (hjoins : ∀ t t', t.pending = s.pending → Alike f t t' → p.Joins t t') :
    p.Steps (blankLine line column cs s) (blankLine line' column cs' s') := by
  rw [blankLine_eq, blankLine_eq, htokens, getLast?_map_kind hkind]
  refine .ok (hjoins _ _ rfl ⟨h.indents_eq, h.depth_eq, h.pending_eq, ?_⟩)
  cases (blankTokens line column cs).getLast? with
  | none => exact h.atLineStart_eq
  | some t => rfl

theorem finish_eq (h : Alike f s s') {last last' : List Char}
    (hbreak : impliedBreak line' last' s' = (impliedBreak line last s).map p.token)
    (hmark : ∀ kind, p.token (onLine (line + 1) 0 kind []) = onLine (line' + 1) 0 kind [])
    (heof : p.error ⟨⟨line + 1, 0⟩, .endInStatement⟩ = ⟨⟨line' + 1, 0⟩, .endInStatement⟩)
    (hnothing : f .nothing = .nothing) (hjoin : f .join = .join)
    (hstring : ∀ start close text, ∃ start' text', f (.string start close text) =
      .string start' close text' ∧ p.error ⟨start, .endInString⟩ = ⟨start', .endInString⟩) :
    finish line' last' s' = p.result (finish line last s) := by
  simp only [finish, h.pending_eq, h.depth_eq, h.indents_eq, hbreak]
  cases s.pending with
  | string start close text =>
    obtain ⟨start', text', heq, herror⟩ := hstring start close text
    rw [heq]
    exact congrArg Except.error herror.symm
  | join =>
    rw [hjoin]
    exact congrArg Except.error heof.symm
  | nothing =>
    rw [hnothing]
    simp only
    split
    · exact congrArg Except.error heof.symm
    · simp only [Parallel.result_ok, List.map_append, List.map_replicate, List.map_singleton]
      have hdedent := hmark .dedent
      have hend := hmark .endMarker
      simp only [onLine, Text.width] at hdedent hend
      rw [hdedent, hend]

end Alike

end StyleCheck.Token
