import StyleCheck.Token.Lexeme

namespace StyleCheck.Token

inductive Reads (c : Char) (cs : List Char) : Lexeme → Prop
  | blank (h : isMargin c = true) : Reads c cs .blank
  | comment (h : c = '#') : Reads c cs (.token .comment (commentLength cs))
  | lineEnd (h : isLineEnd c = true) : Reads c cs .lineEnd
  | join (h : c = '\\') (he : startsWith isLineEnd cs = true) : Reads c cs .join
  | number (h : c.isDigit = true ∨ c = '.') : Reads c cs (.token .number (numberLength (c :: cs) - 1))
  | name (h : isNameStart c = true) :
      Reads c cs (.token .name (cs.takeWhile isNameChar).length)
  | op {op : List Char} (h : operator? (c :: cs) = some op) : Reads c cs (.token .op (op.length - 1))
  | string {mark rest : List Char} {quote : Char} {n : Nat} (h : c :: cs = mark ++ quote :: rest)
      (hm : mark = [] ∨ isStringMark mark = true) (hq : isQuote quote = true)
      (hn : closing? (delimiter quote rest) (rest.drop ((delimiter quote rest).length - 1)) = some n) :
      Reads c cs (.token .string (mark.length + (delimiter quote rest).length - 1 + n))
  | opening {mark rest : List Char} {quote : Char} (h : c :: cs = mark ++ quote :: rest)
      (hm : mark = [] ∨ isStringMark mark = true) (hq : isQuote quote = true)
      (hn : closing? (delimiter quote rest) (rest.drop ((delimiter quote rest).length - 1)) = none)
      (hc : continues (delimiter quote rest) rest = true) :
      Reads c cs (.opening (delimiter quote rest))
  | stray {fault : SyntaxFault} : Reads c cs (.stray fault)

theorem reads_stringLexeme {c : Char} {cs mark rest : List Char} {quote : Char}
    (h : c :: cs = mark ++ quote :: rest) (hm : mark = [] ∨ isStringMark mark = true)
    (hq : isQuote quote = true) : Reads c cs (stringLexeme mark.length quote rest) := by
  unfold stringLexeme
  simp only
  split
  · exact .string h hm hq ‹_›
  · split
    · exact .opening h hm hq ‹_› ‹_›
    · exact .stray

theorem reads_nameLexeme {c : Char} {cs : List Char} (h : isNameStart c = true) :
    Reads c cs (nameLexeme c cs) := by
  simp only [nameLexeme]
  split
  · rename_i quote rest hr
    split
    · rename_i hq
      obtain ⟨hq, hm⟩ := Bool.and_eq_true_iff.1 hq
      have hc : c :: cs = (c :: cs.takeWhile isNameChar) ++ quote :: rest := by
        rw [← hr, List.cons_append]
        congr 1
        exact (List.prefix_iff_eq_append.1 (List.takeWhile_prefix isNameChar)).symm
      exact reads_stringLexeme hc (.inr hm) hq
    · exact .name h
  · exact .name h

theorem reads_lexeme (c : Char) (cs : List Char) : Reads c cs (lexeme c cs) := by
  unfold lexeme
  split
  · exact .blank ‹_›
  split
  · exact .comment ‹_›
  split
  · exact .lineEnd ‹_›
  split
  · split
    · exact .join ‹_› ‹_›
    · exact .stray
  split
  · rename_i hd
    apply Reads.number
    simp only [Bool.or_eq_true, Bool.and_eq_true, beq_iff_eq] at hd
    exact hd.imp_right And.left
  split
  · have hc : c :: cs = [] ++ c :: cs := rfl
    exact reads_stringLexeme hc (.inl rfl) ‹_›
  split
  · exact reads_nameLexeme ‹_›
  split
  · exact .op ‹_›
  · exact .stray

theorem isMargin_of_lexeme {c : Char} {cs : List Char} (h : lexeme c cs = .blank) :
    isMargin c = true := by
  have hr := h ▸ reads_lexeme c cs
  cases hr with
  | blank hm => exact hm

theorem isLineEnd_of_lexeme {c : Char} {cs : List Char} (h : lexeme c cs = .lineEnd) :
    isLineEnd c = true := by
  have hr := h ▸ reads_lexeme c cs
  cases hr with
  | lineEnd hc => exact hc

theorem backslash_of_lexeme {c : Char} {cs : List Char} (h : lexeme c cs = .join) :
    c = '\\' ∧ startsWith isLineEnd cs = true := by
  have hr := h ▸ reads_lexeme c cs
  cases hr with
  | join hc he => exact ⟨hc, he⟩

end StyleCheck.Token
