namespace StyleCheck.Toml

abbrev Reader := StateT (List Char) Option

namespace Reader

def rest : Reader (List Char) := get

def atEnd : Reader Unit := do
  if (← rest).isEmpty then pure () else failure

def char (p : Char → Bool) : Reader Char := do
  match ← rest with
  | [] => failure
  | c :: cs => if p c then set cs; pure c else failure

def exactly (c : Char) : Reader Unit := do
  let _ ← char (· == c)

def word : List Char → Reader Unit
  | [] => pure ()
  | c :: cs => do
    exactly c
    word cs

def run (p : Char → Bool) : Reader (List Char) := do
  let taken := (← rest).takeWhile p
  set ((← rest).drop taken.length)
  pure taken

def run1 (p : Char → Bool) : Reader (List Char) := do
  let taken ← run p
  if taken.isEmpty then failure else pure taken

def times (n : Nat) (p : Char → Bool) : Reader (List Char) :=
  match n with
  | 0 => pure []
  | n + 1 => do
    let c ← char p
    let cs ← times n p
    pure (c :: cs)

def optional (r : Reader α) : Reader (Option α) :=
  (some <$> r) <|> pure none

def startsWith (p : Char → Bool) : Reader Bool := do
  match ← rest with
  | [] => pure false
  | c :: _ => pure (p c)

def manyWithin (fuel : Nat) (item : Reader α) : Reader (List α) :=
  match fuel with
  | 0 => pure []
  | fuel + 1 => do
    match ← optional item with
    | none => pure []
    | some a =>
      let others ← manyWithin fuel item
      pure (a :: others)

def many (item : Reader α) : Reader (List α) := do
  manyWithin (← rest).length item

def separated (item : Reader α) (separator : Reader Unit) : Reader (List α) := do
  let first ← item
  let others ← many (do separator; item)
  pure (first :: others)

end Reader

end StyleCheck.Toml
