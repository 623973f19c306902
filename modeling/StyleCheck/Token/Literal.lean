import StyleCheck.Text.Lines

namespace StyleCheck.Token

def isDigitOrUnderscore (c : Char) : Bool :=
  c.isDigit || c == '_'

def isHexDigitOrUnderscore (c : Char) : Bool :=
  c.isDigit || ('a' ≤ c && c ≤ 'f') || ('A' ≤ c && c ≤ 'F') || c == '_'

def isNameStart (c : Char) : Bool :=
  c == '_' || c.isAlpha || 0x80 ≤ c.toNat

def isNameChar (c : Char) : Bool :=
  isNameStart c || c.isDigit

def runLength (p : Char → Bool) (cs : List Char) : Nat :=
  (cs.takeWhile p).length

theorem runLength_le (p : Char → Bool) (cs : List Char) : runLength p cs ≤ cs.length :=
  List.IsPrefix.length_le <| List.takeWhile_prefix p

def isBaseLetter (c : Char) : Bool :=
  c ∈ ['x', 'X', 'o', 'O', 'b', 'B']

def isSign (c : Char) : Bool :=
  c == '+' || c == '-'

def isExponentLetter (c : Char) : Bool :=
  c == 'e' || c == 'E'

def isImaginaryLetter (c : Char) : Bool :=
  c == 'j' || c == 'J'

def startsWith (p : Char → Bool) : List Char → Bool
  | [] => false
  | c :: _ => p c

def fractionLength : List Char → Nat
  | '.' :: cs => 1 + runLength isDigitOrUnderscore cs
  | _ => 0

theorem fractionLength_le (cs : List Char) : fractionLength cs ≤ cs.length := by
  unfold fractionLength
  split
  · have := runLength_le isDigitOrUnderscore ‹_›
    simp only [List.length_cons]
    omega
  · exact Nat.zero_le _

def signLength (cs : List Char) : Nat :=
  if startsWith isSign cs then 1 else 0

def exponentLength : List Char → Nat
  | [] => 0
  | c :: cs =>
    if isExponentLetter c && startsWith Char.isDigit (cs.drop (signLength cs)) then
      1 + signLength cs + runLength isDigitOrUnderscore (cs.drop (signLength cs))
    else 0

theorem length_pos_of_startsWith {p : Char → Bool} {cs : List Char} (h : startsWith p cs = true) :
    0 < cs.length := by
  cases cs with
  | nil => simp [startsWith] at h
  | cons c cs => simp

theorem exponentLength_le (cs : List Char) : exponentLength cs ≤ cs.length := by
  cases cs with
  | nil => exact Nat.zero_le _
  | cons c cs =>
    simp only [exponentLength]
    split
    · rename_i h
      have hd := length_pos_of_startsWith (Bool.and_eq_true_iff.1 h).2
      have hr := runLength_le isDigitOrUnderscore (cs.drop (signLength cs))
      simp only [List.length_drop, List.length_cons] at hd hr ⊢
      omega
    · exact Nat.zero_le _

def imaginaryLength (cs : List Char) : Nat :=
  if startsWith isImaginaryLetter cs then 1 else 0

theorem imaginaryLength_le (cs : List Char) : imaginaryLength cs ≤ cs.length := by
  unfold imaginaryLength
  split
  · exact length_pos_of_startsWith ‹_›
  · exact Nat.zero_le _

def decimalLength (cs : List Char) : Nat :=
  let whole := runLength isDigitOrUnderscore cs
  let fraction := fractionLength (cs.drop whole)
  let exponent := exponentLength (cs.drop (whole + fraction))
  whole + fraction + exponent + imaginaryLength (cs.drop (whole + fraction + exponent))

theorem decimalLength_le (cs : List Char) : decimalLength cs ≤ cs.length := by
  have hw := runLength_le isDigitOrUnderscore cs
  have hf := fractionLength_le (cs.drop (runLength isDigitOrUnderscore cs))
  have he := exponentLength_le (cs.drop (runLength isDigitOrUnderscore cs +
    fractionLength (cs.drop (runLength isDigitOrUnderscore cs))))
  have hi := imaginaryLength_le (cs.drop (runLength isDigitOrUnderscore cs +
    fractionLength (cs.drop (runLength isDigitOrUnderscore cs)) +
    exponentLength (cs.drop (runLength isDigitOrUnderscore cs +
      fractionLength (cs.drop (runLength isDigitOrUnderscore cs))))))
  simp only [List.length_drop] at hf he hi
  simp only [decimalLength]
  omega

def numberLength : List Char → Nat
  | '0' :: b :: cs =>
    if isBaseLetter b then 2 + runLength isHexDigitOrUnderscore cs else decimalLength ('0' :: b :: cs)
  | cs => decimalLength cs

theorem numberLength_le (cs : List Char) : numberLength cs ≤ cs.length := by
  unfold numberLength
  split
  · rename_i b cs
    split
    · have := runLength_le isHexDigitOrUnderscore cs
      simp only [List.length_cons]
      omega
    · exact decimalLength_le _
  · exact decimalLength_le _

def operators : List (List Char) :=
  [['*', '*', '='], ['/', '/', '='], ['>', '>', '='], ['<', '<', '='], ['.', '.', '.'],
   ['*', '*'], ['/', '/'], ['>', '>'], ['<', '<'], ['<', '='], ['>', '='], ['=', '='], ['!', '='],
   ['-', '>'], ['+', '='], ['-', '='], ['*', '='], ['/', '='], ['%', '='], ['&', '='], ['|', '='],
   ['^', '='], ['@', '='], [':', '='], ['+'], ['-'], ['*'], ['/'], ['%'], ['@'], ['&'], ['|'],
   ['^'], ['~'], ['<'], ['>'], ['('], [')'], ['['], [']'], ['{'], ['}'], [','], [':'], [';'],
   ['.'], ['='], ['!']]

def operator? (cs : List Char) : Option (List Char) :=
  operators.find? (·.isPrefixOf cs)

theorem operator?_isPrefix {cs op : List Char} (h : operator? cs = some op) : op <+: cs := by
  have := List.find?_some h
  simpa using this

def isQuote (c : Char) : Bool :=
  c == '\'' || c == '"'

def stringMarks : List (List Char) :=
  [['r'], ['u'], ['b'], ['f'], ['b', 'r'], ['r', 'b'], ['f', 'r'], ['r', 'f']]

def isStringMark (word : List Char) : Bool :=
  word.map Char.toLower ∈ stringMarks

def delimiter (quote : Char) (cs : List Char) : List Char :=
  if [quote, quote].isPrefixOf cs then [quote, quote, quote] else [quote]

theorem length_delimiter (quote : Char) (cs : List Char) :
    (delimiter quote cs).length = 1 ∨ (delimiter quote cs).length = 3 := by
  unfold delimiter
  split <;> simp

theorem delimiter_isPrefix (quote : Char) (cs : List Char) :
    delimiter quote cs <+: quote :: cs := by
  unfold delimiter
  split
  · rename_i h
    exact List.cons_prefix_cons.2 ⟨rfl, List.isPrefixOf_iff_prefix.1 h⟩
  · exact List.cons_prefix_cons.2 ⟨rfl, List.nil_prefix⟩

/-- The length up to and with the closing delimiter. A backslash takes the next character with it,
and a delimiter of one character does not look past the line. -/
def closingFrom? (close : List Char) : Bool → List Char → Option Nat
  | _, [] => none
  | true, _ :: cs => (closingFrom? close false cs).map (· + 1)
  | false, c :: cs =>
    if c = '\\' then (closingFrom? close true cs).map (· + 1)
    else if close.isPrefixOf (c :: cs) then some close.length
    else if close.length = 1 ∧ c = '\n' then none
    else (closingFrom? close false cs).map (· + 1)

def closing? (close cs : List Char) : Option Nat :=
  closingFrom? close false cs

theorem closingFrom?_le {close cs : List Char} {escaped : Bool} {n : Nat}
    (h : closingFrom? close escaped cs = some n) : n ≤ cs.length := by
  fun_induction closingFrom? close escaped cs generalizing n with
  | case1 => simp at h
  | case2 _ cs ih | case3 cs ih | case6 _ cs _ _ _ ih =>
    obtain ⟨m, hm, rfl⟩ := Option.map_eq_some_iff.1 h
    exact Nat.succ_le_succ (ih hm)
  | case4 c cs _ hp =>
    cases h
    exact List.IsPrefix.length_le <| List.isPrefixOf_iff_prefix.1 hp
  | case5 => simp at h

def isLineEnd (c : Char) : Bool :=
  c == '\r' || c == '\n'

def continues (close cs : List Char) : Bool :=
  close.length == 3 || startsWith (· == '\\') (cs.reverse.dropWhile isLineEnd)

end StyleCheck.Token
