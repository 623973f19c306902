import StyleCheck.Token.Lexeme

/-! The token stream of a text, line by line. -/

namespace StyleCheck

namespace Token

inductive Pending
  | nothing
  | join
  | string (start : Position) (close text : List Char)
deriving DecidableEq, Repr

structure State where
  indents : List Nat
  depth : Nat
  pending : Pending
  last : Option Kind
deriving DecidableEq, Repr

def State.start : State :=
  ⟨[], 0, .nothing, none⟩

abbrev Step := Except SyntaxError (List Token × State)

def Step.cons (token : Token) (step : Step) : Step :=
  step.map fun result => (token :: result.1, result.2)

def depthAfter (depth : Nat) : List Char → Nat
  | ['('] | ['['] | ['{'] => depth + 1
  | [')'] | [']'] | ['}'] => depth - 1
  | _ => depth

def State.after (s : State) (kind : Kind) (text : List Char) : State :=
  { s with
    last := some kind
    depth := if kind = .op then depthAfter s.depth text else s.depth }

def State.atLineStart (s : State) : Bool :=
  match s.last with
  | none => true
  | some kind => kind ∈ [Kind.newline, .nl, .indent, .dedent]

def State.breakKind (s : State) : Kind :=
  if 0 < s.depth ∨ s.atLineStart then .nl else .newline

def scan (line : Nat) : Nat → Nat → List Char → State → Step
  | _, _, [], s => .ok ([], s)
  | skip + 1, column, c :: cs, s => scan line skip (column + c.utf8Size) cs s
  | 0, column, c :: cs, s =>
    let start : Position := ⟨line, column⟩
    match lexeme c cs with
    | .blank => scan line 0 (column + c.utf8Size) cs s
    | .token kind extra =>
      let text := c :: cs.take extra
      .cons ⟨kind, text, start, ⟨line, column + Text.width text⟩⟩
        (scan line extra (column + c.utf8Size) cs (s.after kind text))
    | .opening close => .ok ([], { s with pending := .string start close (c :: cs) })
    | .lineEnd =>
      let kind := s.breakKind
      .ok ([⟨kind, c :: cs, start, ⟨line, column + Text.width (c :: cs)⟩⟩], s.after kind (c :: cs))
    | .join => .ok ([], { s with pending := .join })
    | .stray fault => .error ⟨start, fault⟩

theorem scan_skip (line skip column : Nat) (cs : List Char) (s : State) :
    scan line skip column cs s =
      scan line 0 (column + Text.width (cs.take skip)) (cs.drop skip) s := by
  induction cs generalizing skip column with
  | nil => cases skip <;> simp [scan]
  | cons c cs ih =>
    cases skip with
    | zero => simp [Text.width]
    | succ skip => simp [scan, ih skip, Text.width, Nat.add_assoc]

theorem scan_token {line column : Nat} {c : Char} {cs : List Char} {s : State} {kind : Kind}
    {extra : Nat} (h : lexeme c cs = .token kind extra) :
    scan line 0 column (c :: cs) s =
      Step.cons ⟨kind, c :: cs.take extra, ⟨line, column⟩,
          ⟨line, column + Text.width (c :: cs.take extra)⟩⟩
        (scan line 0 (column + Text.width (c :: cs.take extra)) (cs.drop extra)
          (s.after kind (c :: cs.take extra))) := by
  simp only [scan, h]
  rw [scan_skip]
  simp [Text.width, Nat.add_assoc]

/-- A tab goes to the next multiple of eight and a form feed back to the start. -/
def indentColumn (margin : List Char) : Nat :=
  margin.foldl (fun column c =>
    if c = '\t' then (column / 8 + 1) * 8 else if c = '\x0c' then 0 else column + 1) 0

def indentStep (line : Nat) (margin : List Char) (s : State) : Step :=
  let column := indentColumn margin
  let here : Position := ⟨line, Text.width margin⟩
  if s.indents.headD 0 < column then
    .ok ([⟨.indent, margin, ⟨line, 0⟩, here⟩],
      { s with indents := column :: s.indents, last := some .indent })
  else
    let kept := s.indents.dropWhile (column < ·)
    let closed := s.indents.length - kept.length
    if kept.headD 0 = column then
      .ok (List.replicate closed ⟨.dedent, [], here, here⟩,
        { s with indents := kept, last := if closed = 0 then s.last else some .dedent })
    else .error ⟨here, .unmatchedDedent⟩

def blankLine (line column : Nat) (cs : List Char) (s : State) : Step :=
  let comment := cs.takeWhile (!isLineEnd ·)
  let ending := cs.drop comment.length
  let middle := column + Text.width comment
  let tokens :=
    (if comment = [] then [] else [⟨.comment, comment, ⟨line, column⟩, ⟨line, middle⟩⟩]) ++
    (if ending = [] then [] else [⟨.nl, ending, ⟨line, middle⟩, ⟨line, middle + Text.width ending⟩⟩])
  .ok (tokens, { s with last := (tokens.getLast?.map (·.kind)).or s.last })

def startsBlankLine (cs : List Char) : Bool :=
  cs.isEmpty || startsWith (fun c => c == '#' || isLineEnd c) cs

def freshLine (line : Nat) (cs : List Char) (s : State) : Step := do
  let margin := cs.takeWhile isMargin
  let rest := cs.drop margin.length
  if startsBlankLine rest then blankLine line (Text.width margin) rest s
  else
    let (indentation, s) ← indentStep line margin s
    let (tokens, s) ← scan line 0 (Text.width margin) rest s
    .ok (indentation ++ tokens, s)

def lineStep (line : Nat) (cs : List Char) (s : State) : Step :=
  match s.pending with
  | .string start close text =>
    match closing? close cs with
    | some n =>
      let column := Text.width (cs.take n)
      .cons ⟨.string, text ++ cs.take n, start, ⟨line, column⟩⟩
        (scan line 0 column (cs.drop n) { s with pending := .nothing, last := some .string })
    | none => .ok ([], { s with pending := .string start close (text ++ cs) })
  | .join => scan line 0 0 cs { s with pending := .nothing }
  | .nothing => if 0 < s.depth then scan line 0 0 cs s else freshLine line cs s

def linesStep (line : Nat) : List (List Char) → State → Step
  | [], s => .ok ([], s)
  | cs :: rest, s => do
    let (tokens, s) ← lineStep line cs s
    let (others, s) ← linesStep (line + 1) rest s
    .ok (tokens ++ others, s)

def impliedBreak (line : Nat) (last : List Char) (s : State) : List Token :=
  if last = [] ∨ last.getLast? = some '\n' ∨ s.atLineStart then []
  else [⟨.newline, [], ⟨line, Text.width last⟩, ⟨line, Text.width last + 1⟩⟩]

def finish (line : Nat) (last : List Char) (s : State) : Except SyntaxError (List Token) :=
  let eof : Position := ⟨line + 1, 0⟩
  match s.pending with
  | .string start _ _ => .error ⟨start, .endInString⟩
  | .join => .error ⟨eof, .endInStatement⟩
  | .nothing =>
    if 0 < s.depth then .error ⟨eof, .endInStatement⟩
    else .ok (impliedBreak line last s ++ List.replicate s.indents.length ⟨.dedent, [], eof, eof⟩ ++
      [⟨.endMarker, [], eof, eof⟩])

end Token

open Token in
def tokenize (source : List Char) : Except SyntaxError (List Token) := do
  let lines := Text.lines source
  let (tokens, s) ← linesStep 1 lines .start
  let final ← finish lines.length (lines.getLast?.getD []) s
  .ok (tokens ++ final)

end StyleCheck
