import StyleCheck.Toml.DateTable
import StyleCheck.Toml.Draft

namespace StyleCheck.Toml

namespace Reader

def gap : Reader Unit := do
  let _ ← many ((do let _ ← run1 isSpace) <|> (do comment; lineBreak) <|> lineBreak)

def array (item : Reader Value) : Reader Value := do
  exactly '['
  let items ← optional (separated (do gap; let value ← item; gap; pure value) (exactly ','))
  if items.isSome then
    let _ ← optional (exactly ',')
  gap
  exactly ']'
  pure (.array (items.getD []))

def entry (item : Reader Value) : Reader Draft.Entry := do
  let path ← key
  exactly '='
  spaces
  let value ← item
  match path.getLast? with
  | none => failure
  | some key => pure ⟨path.dropLast, key, value⟩

def inlineTable (item : Reader Value) : Reader Value := do
  exactly '{'
  let entries ← optional (separated (do let e ← entry item; spaces; pure e) (exactly ','))
  spaces
  exactly '}'
  match Draft.addEntries [] (entries.getD []) with
  | none => failure
  | some table => pure (.table (Draft.toTable table))

def boolean : Reader Bool :=
  (do word ['t', 'r', 'u', 'e']; pure true) <|> (do word ['f', 'a', 'l', 's', 'e']; pure false)

def scalar : Reader Value :=
  (.string <$> string) <|> (.datetime <$> datetime) <|> (.float <$> specialFloat) <|>
    (.float <$> plainFloat) <|> (.integer <$> integer) <|> (.boolean <$> boolean)

def valueWithin : Nat → Reader Value
  | 0 => scalar
  | depth + 1 => scalar <|> array (valueWithin depth) <|> inlineTable (valueWithin depth)

def value : Reader Value :=
  valueWithin (nestingLimit - 1)

inductive Line
  | blank
  | entry (entry : Draft.Entry)
  | header (repeated : Bool) (path : List String)

def header : Reader Line :=
  (do word ['[', '[']; let path ← key; word [']', ']']; pure (.header true path)) <|>
    (do exactly '['; let path ← key; exactly ']'; pure (.header false path))

def line : Reader Line := do
  spaces
  let line ← header <|> (.entry <$> entry value) <|> pure .blank
  spaces
  let _ ← optional comment
  pure line

def lines : Reader (List Line) := do
  let _ ← optional (exactly '\uFEFF')
  let lines ← separated line lineBreak
  atEnd
  pure lines

end Reader

def sections : List Reader.Line → List Draft.Entry × List Draft.Section
  | [] => ([], [])
  | .blank :: rest => sections rest
  | .entry entry :: rest =>
    let (entries, others) := sections rest
    (entry :: entries, others)
  | .header repeated path :: rest =>
    let (entries, others) := sections rest
    ([], ⟨repeated, path.dropLast, path.getLast?.getD "", entries⟩ :: others)

def readTable? (text : List Char) : Option Table := do
  let (lines, _) ← StateT.run Reader.lines text
  let (entries, parts) := sections lines
  let root ← Draft.addEntries [] entries
  let root ← parts.foldlM Draft.addSection root
  DateTable.resolveEntries? (Draft.toTable root)

end StyleCheck.Toml
