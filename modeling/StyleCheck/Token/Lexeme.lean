import StyleCheck.Token.Basic
import StyleCheck.Token.Literal

namespace StyleCheck.Token

inductive Lexeme
  | blank
  /-- A token with `extra` characters after its first. -/
  | token (kind : Kind) (extra : Nat)
  | opening (close : List Char)
  | lineEnd
  | join
  | stray (fault : SyntaxFault)
deriving DecidableEq, Repr

def isMargin (c : Char) : Bool :=
  c == ' ' || c == '\t' || c == '\x0c'

def stringLexeme (mark : Nat) (quote : Char) (cs : List Char) : Lexeme :=
  let close := delimiter quote cs
  match closing? close (cs.drop (close.length - 1)) with
  | some n => .token .string (mark + close.length - 1 + n)
  | none => if continues close cs then .opening close else .stray .unterminatedString

theorem stringLexeme_token_le {mark extra : Nat} {quote : Char} {cs : List Char} {kind : Kind}
    (h : stringLexeme mark quote cs = .token kind extra) : extra ≤ mark + cs.length := by
  simp only [stringLexeme] at h
  split at h
  · rename_i n hn
    have hc := closingFrom?_le hn
    have hd := (delimiter_isPrefix quote cs).length_le
    have hl := length_delimiter quote cs
    simp only [List.length_drop, List.length_cons] at hc hd
    cases h
    omega
  · split at h <;> cases h

def nameLexeme (c : Char) (cs : List Char) : Lexeme :=
  let tail := cs.takeWhile isNameChar
  match cs.drop tail.length with
  | quote :: rest =>
    if isQuote quote && isStringMark (c :: tail) then stringLexeme (tail.length + 1) quote rest
    else .token .name tail.length
  | [] => .token .name tail.length

theorem nameLexeme_token_le {c : Char} {cs : List Char} {kind : Kind} {extra : Nat}
    (h : nameLexeme c cs = .token kind extra) : extra ≤ cs.length := by
  have ht : (cs.takeWhile isNameChar).length ≤ cs.length := runLength_le isNameChar cs
  simp only [nameLexeme] at h
  split at h
  · rename_i quote rest hr
    have hl := congrArg List.length hr
    simp only [List.length_drop, List.length_cons] at hl
    split at h
    · have := stringLexeme_token_le h
      omega
    · cases h
      exact ht
  · cases h
    exact ht

def commentLength (cs : List Char) : Nat :=
  runLength (!isLineEnd ·) cs

def lexeme (c : Char) (cs : List Char) : Lexeme :=
  if isMargin c then .blank
  else if c = '#' then .token .comment (commentLength cs)
  else if isLineEnd c then .lineEnd
  else if c = '\\' then if startsWith isLineEnd cs then .join else .stray .strayBackslash
  else if c.isDigit || (c == '.' && startsWith Char.isDigit cs) then
    .token .number (numberLength (c :: cs) - 1)
  else if isQuote c then stringLexeme 0 c cs
  else if isNameStart c then nameLexeme c cs
  else match operator? (c :: cs) with
    | some op => .token .op (op.length - 1)
    | none => .stray (.invalidCharacter c)

theorem lexeme_token_le {c : Char} {cs : List Char} {kind : Kind} {extra : Nat}
    (h : lexeme c cs = .token kind extra) : extra ≤ cs.length := by
  unfold lexeme at h
  split at h
  · cases h
  split at h
  · cases h
    exact runLength_le _ cs
  split at h
  · cases h
  split at h
  · split at h <;> cases h
  split at h
  · have := numberLength_le (c :: cs)
    simp only [List.length_cons] at this
    cases h
    omega
  split at h
  · have := stringLexeme_token_le h
    omega
  split at h
  · exact nameLexeme_token_le h
  split at h
  · rename_i op ho
    have := (operator?_isPrefix ho).length_le
    simp only [List.length_cons] at this
    cases h
    omega
  · cases h

end StyleCheck.Token
