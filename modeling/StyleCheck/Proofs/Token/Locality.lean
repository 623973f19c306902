import Mathlib.Data.List.Find
import StyleCheck.Token.Lexeme

namespace StyleCheck.Token

def Stops (p : Char → Bool) : Prop :=
  ∀ c, isLineEnd c = true → p c = false

theorem isLineEnd_iff {c : Char} : isLineEnd c = true ↔ c = '\r' ∨ c = '\n' := by
  simp [isLineEnd]

theorem stops_of {p : Char → Bool} (hr : p '\r' = false) (hn : p '\n' = false) : Stops p := by
  intro c hc
  obtain rfl | rfl := isLineEnd_iff.mp hc
  · exact hr
  · exact hn

variable {p : Char → Bool} {e : List Char}

theorem Stops.isLineEnd {c : Char} (hp : Stops p) (h : p c = true) : isLineEnd c = false := by
  apply Bool.eq_false_iff.mpr
  intro hc
  rw [hp c hc] at h
  cases h

theorem exists_lineEnd (he : startsWith isLineEnd e = true) :
    ∃ d es, e = d :: es ∧ isLineEnd d = true := by
  cases e with
  | nil => cases he
  | cons d es => exact ⟨d, es, rfl, he⟩

theorem startsWith_append (hp : Stops p) (he : startsWith isLineEnd e = true) (cs : List Char) :
    startsWith p (cs ++ e) = startsWith p cs := by
  cases cs with
  | nil =>
    obtain ⟨d, es, rfl, hd⟩ := exists_lineEnd he
    exact hp d hd
  | cons c cs => rfl

theorem takeWhile_append (hp : Stops p) (he : startsWith isLineEnd e = true) (cs : List Char) :
    (cs ++ e).takeWhile p = cs.takeWhile p := by
  induction cs with
  | nil =>
    obtain ⟨d, es, rfl, hd⟩ := exists_lineEnd he
    exact List.takeWhile_cons_of_neg (by simp [hp d hd])
  | cons c cs ih =>
    rw [List.cons_append, List.takeWhile_cons, List.takeWhile_cons, ih]

theorem runLength_append (hp : Stops p) (he : startsWith isLineEnd e = true) (cs : List Char) :
    runLength p (cs ++ e) = runLength p cs := by
  rw [runLength, takeWhile_append hp he, runLength]

theorem stops_isDigit : Stops Char.isDigit :=
  stops_of rfl rfl

theorem stops_isDigitOrUnderscore : Stops isDigitOrUnderscore :=
  stops_of rfl rfl

theorem stops_isHexDigitOrUnderscore : Stops isHexDigitOrUnderscore :=
  stops_of rfl rfl

theorem stops_isNameChar : Stops isNameChar :=
  stops_of rfl rfl

theorem fractionLength_of_ne {c : Char} (h : c ≠ '.') (cs : List Char) :
    fractionLength (c :: cs) = 0 := by
  unfold fractionLength
  split
  · rename_i heq
    exact absurd (List.cons.inj heq).1 h
  · rfl

theorem fractionLength_append (he : startsWith isLineEnd e = true) (cs : List Char) :
    fractionLength (cs ++ e) = fractionLength cs := by
  cases cs with
  | nil =>
    obtain ⟨d, es, rfl, hd⟩ := exists_lineEnd he
    apply fractionLength_of_ne
    rintro rfl
    cases hd
  | cons c cs =>
    by_cases hc : c = '.'
    · subst hc
      simp only [List.cons_append, fractionLength, runLength_append stops_isDigitOrUnderscore he]
    · rw [List.cons_append, fractionLength_of_ne hc, fractionLength_of_ne hc]

theorem signLength_append (he : startsWith isLineEnd e = true) (cs : List Char) :
    signLength (cs ++ e) = signLength cs := by
  rw [signLength, startsWith_append (stops_of rfl rfl) he, signLength]

theorem signLength_le (cs : List Char) : signLength cs ≤ cs.length := by
  unfold signLength
  split
  · exact length_pos_of_startsWith ‹_›
  · exact Nat.zero_le _

theorem exponentLength_append (he : startsWith isLineEnd e = true) (cs : List Char) :
    exponentLength (cs ++ e) = exponentLength cs := by
  cases cs with
  | nil =>
    obtain ⟨d, es, rfl, hd⟩ := exists_lineEnd he
    have hletter : isExponentLetter d = false := stops_of rfl rfl d hd
    simp [exponentLength, hletter]
  | cons c cs =>
    simp only [List.cons_append, exponentLength, signLength_append he,
      List.drop_append_of_le_length (signLength_le cs), startsWith_append stops_isDigit he,
      runLength_append stops_isDigitOrUnderscore he]

theorem imaginaryLength_append (he : startsWith isLineEnd e = true) (cs : List Char) :
    imaginaryLength (cs ++ e) = imaginaryLength cs := by
  rw [imaginaryLength, startsWith_append (stops_of rfl rfl) he, imaginaryLength]

theorem decimalLength_append (he : startsWith isLineEnd e = true) (cs : List Char) :
    decimalLength (cs ++ e) = decimalLength cs := by
  have hw := runLength_le isDigitOrUnderscore cs
  have hf := fractionLength_le (cs.drop (runLength isDigitOrUnderscore cs))
  have hx := exponentLength_le (cs.drop (runLength isDigitOrUnderscore cs +
    fractionLength (cs.drop (runLength isDigitOrUnderscore cs))))
  rw [List.length_drop] at hf hx
  simp only [decimalLength, runLength_append stops_isDigitOrUnderscore he]
  rw [List.drop_append_of_le_length hw, fractionLength_append he,
    List.drop_append_of_le_length (by omega), exponentLength_append he,
    List.drop_append_of_le_length (by omega), imaginaryLength_append he]

theorem numberLength_of_ne {c : Char} (h : c ≠ '0') (cs : List Char) :
    numberLength (c :: cs) = decimalLength (c :: cs) := by
  unfold numberLength
  split
  · rename_i heq
    exact absurd (List.cons.inj heq).1 h
  · rfl

theorem numberLength_append (he : startsWith isLineEnd e = true) (cs : List Char) :
    numberLength (cs ++ e) = numberLength cs := by
  have hdecimal := decimalLength_append he cs
  cases cs with
  | nil =>
    obtain ⟨d, es, rfl, hd⟩ := exists_lineEnd he
    rw [List.nil_append, numberLength_of_ne]
    · exact hdecimal
    · rintro rfl
      cases hd
  | cons c cs =>
    rw [List.cons_append] at hdecimal ⊢
    by_cases hc : c = '0'
    · subst hc
      cases cs with
      | nil =>
        obtain ⟨d, es, rfl, hd⟩ := exists_lineEnd he
        have hbase : isBaseLetter d = false := stops_of rfl rfl d hd
        simpa [numberLength, hbase] using hdecimal
      | cons b cs =>
        simp only [List.cons_append, numberLength,
          runLength_append stops_isHexDigitOrUnderscore he]
        split
        · rfl
        · exact hdecimal
    · rw [numberLength_of_ne hc, numberLength_of_ne hc]
      exact hdecimal

theorem isPrefixOf_append {word : List Char} (hw : ∀ c ∈ word, isLineEnd c = false)
    (he : startsWith isLineEnd e = true) (cs : List Char) :
    word.isPrefixOf (cs ++ e) = word.isPrefixOf cs := by
  induction word generalizing cs with
  | nil => simp
  | cons w word ih =>
    obtain ⟨hc, hword⟩ := List.forall_mem_cons.mp hw
    cases cs with
    | nil =>
      obtain ⟨d, es, rfl, hd⟩ := exists_lineEnd he
      have hne : w ≠ d := by
        rintro rfl
        rw [hc] at hd
        cases hd
      rw [List.nil_append, List.isPrefixOf_cons_cons, beq_false_of_ne hne, Bool.false_and]
      rfl
    | cons c cs =>
      simp only [List.cons_append, List.isPrefixOf_cons_cons, ih hword]

theorem isLineEnd_of_mem_operators : ∀ op ∈ operators, op ≠ [] ∧ ∀ c ∈ op, isLineEnd c = false := by
  simp [operators, isLineEnd]

theorem operator?_append (he : startsWith isLineEnd e = true) (cs : List Char) :
    operator? (cs ++ e) = operator? cs := by
  apply List.find?_congr
  intro op hop
  exact isPrefixOf_append (isLineEnd_of_mem_operators op hop).2 he cs

theorem isLineEnd_of_isQuote {c : Char} (h : isQuote c = true) : isLineEnd c = false :=
  Stops.isLineEnd (stops_of rfl rfl) h

theorem isQuote_of_mem_delimiter {quote c : Char} {cs : List Char} (hq : isQuote quote = true)
    (h : c ∈ delimiter quote cs) : isQuote c = true := by
  have hc : c = quote := by
    unfold delimiter at h
    split at h
    · simpa using h
    · simpa using h
  rw [hc]
  exact hq

theorem delimiter_append {quote : Char} (hq : isQuote quote = true)
    (he : startsWith isLineEnd e = true) (cs : List Char) :
    delimiter quote (cs ++ e) = delimiter quote cs := by
  have hword : ∀ c ∈ [quote, quote], isLineEnd c = false := by
    simp [isLineEnd_of_isQuote hq]
  rw [delimiter, isPrefixOf_append hword he, delimiter]

theorem startsWith_dropWhile {cs : List Char} (h : cs.dropWhile (!isLineEnd ·) ≠ []) :
    startsWith isLineEnd (cs.dropWhile (!isLineEnd ·)) = true := by
  obtain ⟨d, es, he⟩ := List.exists_cons_of_ne_nil h
  have := List.head?_dropWhile_not (!isLineEnd ·) cs
  rw [he] at this ⊢
  simpa [startsWith] using this

theorem isLineEnd_of_mem_take {f : List Char → Nat} (hle : ∀ cs, f cs ≤ cs.length)
    (hf : ∀ e, startsWith isLineEnd e = true → ∀ cs, f (cs ++ e) = f cs) {cs : List Char} {c : Char}
    (h : c ∈ cs.take (f cs)) : isLineEnd c = false := by
  let line := cs.takeWhile (!isLineEnd ·)
  have hcs : line ++ cs.dropWhile (!isLineEnd ·) = cs := List.takeWhile_append_dropWhile
  have hmem : c ∈ line := by
    cases he : cs.dropWhile (!isLineEnd ·) with
    | nil =>
      rw [he, List.append_nil] at hcs
      rw [hcs]
      exact List.mem_of_mem_take h
    | cons d es =>
      have hd : startsWith isLineEnd (d :: es) = true := by
        rw [← he]
        apply startsWith_dropWhile
        rw [he]
        exact List.cons_ne_nil d es
      rw [he] at hcs
      rw [← hcs, hf _ hd, List.take_append_of_le_length (hle line)] at h
      exact List.mem_of_mem_take h
  have := List.all_eq_true.mp List.all_takeWhile c hmem
  simpa using this

structure IsBreak (e : List Char) : Prop where
  ne_nil : e ≠ []
  all : ∀ c ∈ e, isLineEnd c = true

theorem IsBreak.startsWith (h : IsBreak e) : startsWith isLineEnd e = true := by
  obtain ⟨d, es, rfl⟩ := List.exists_cons_of_ne_nil h.ne_nil
  exact h.all d List.mem_cons_self

theorem closingFrom?_of_isLineEnd {close : List Char} (hne : close ≠ [])
    (hc : ∀ c ∈ close, isLineEnd c = false) (h : ∀ c ∈ e, isLineEnd c = true) (escaped : Bool) :
    closingFrom? close escaped e = none := by
  induction e generalizing escaped with
  | nil => cases escaped <;> rfl
  | cons d es ih =>
    obtain ⟨hd, hes⟩ := List.forall_mem_cons.mp h
    cases escaped with
    | true => simp only [closingFrom?, ih hes, Option.map_none]
    | false =>
      obtain ⟨w, word, rfl⟩ := List.exists_cons_of_ne_nil hne
      have hw : w ≠ d := by
        rintro rfl
        rw [hc w List.mem_cons_self] at hd
        cases hd
      have hbackslash : d ≠ '\\' := by
        rintro rfl
        cases hd
      simp [closingFrom?, hbackslash, List.isPrefixOf_cons_cons, hw, ih hes]

theorem closing?_append {close : List Char} (hne : close ≠ [])
    (hc : ∀ c ∈ close, isLineEnd c = false) (he : IsBreak e) (cs : List Char) :
    closing? close (cs ++ e) = closing? close cs := by
  have hfrom : ∀ escaped, closingFrom? close escaped (cs ++ e) = closingFrom? close escaped cs := by
    induction cs with
    | nil =>
      intro escaped
      rw [List.nil_append, closingFrom?_of_isLineEnd hne hc he.all]
      cases escaped <;> rfl
    | cons c cs ih =>
      intro escaped
      cases escaped with
      | true => simp only [List.cons_append, closingFrom?, ih]
      | false =>
        have hprefix := isPrefixOf_append hc he.startsWith (c :: cs)
        rw [List.cons_append] at hprefix
        simp only [List.cons_append, closingFrom?, ih, hprefix]
  exact hfrom false

theorem closing?_delimiter_append {quote : Char} (hq : isQuote quote = true) (he : IsBreak e)
    (rest cs : List Char) :
    closing? (delimiter quote rest) (cs ++ e) = closing? (delimiter quote rest) cs := by
  apply closing?_append _ _ he
  · intro h
    have := length_delimiter quote rest
    simp [h] at this
  · intro c hc
    exact isLineEnd_of_isQuote (isQuote_of_mem_delimiter hq hc)

theorem continues_append (he : IsBreak e) (close cs : List Char) :
    continues close (cs ++ e) = continues close cs := by
  have hreverse : ∀ c ∈ e.reverse, isLineEnd c = true :=
    fun c hc => he.all c (List.mem_reverse.mp hc)
  rw [continues, List.reverse_append, List.dropWhile_append_of_pos hreverse, continues]

theorem stringLexeme_append {quote : Char} (hq : isQuote quote = true) (he : IsBreak e) (mark : Nat)
    (cs : List Char) : stringLexeme mark quote (cs ++ e) = stringLexeme mark quote cs := by
  have hlength := (delimiter_isPrefix quote cs).length_le
  rw [List.length_cons] at hlength
  simp only [stringLexeme, delimiter_append hq he.startsWith, continues_append he]
  rw [List.drop_append_of_le_length (by omega), closing?_delimiter_append hq he]

theorem nameLexeme_append (he : IsBreak e) (c : Char) (cs : List Char) :
    nameLexeme c (cs ++ e) = nameLexeme c cs := by
  have hle : (cs.takeWhile isNameChar).length ≤ cs.length := runLength_le isNameChar cs
  simp only [nameLexeme, takeWhile_append stops_isNameChar he.startsWith,
    List.drop_append_of_le_length hle]
  cases hd : cs.drop (cs.takeWhile isNameChar).length with
  | nil =>
    obtain ⟨d, es, rfl⟩ := List.exists_cons_of_ne_nil he.ne_nil
    have hquote : isQuote d = false := stops_of rfl rfl d (he.all d List.mem_cons_self)
    simp [hquote]
  | cons quote rest =>
    simp only [List.cons_append]
    by_cases hq : isQuote quote = true
    · rw [stringLexeme_append hq he]
    · simp [hq]

theorem lexeme_append (he : IsBreak e) {c : Char} {cs : List Char} (h : c = '\\' → cs ≠ []) :
    lexeme c (cs ++ e) = lexeme c cs := by
  have hjoin : c = '\\' → startsWith isLineEnd (cs ++ e) = startsWith isLineEnd cs := by
    intro hc
    obtain ⟨d, ds, rfl⟩ := List.exists_cons_of_ne_nil (h hc)
    rfl
  have hnumber := numberLength_append he.startsWith (c :: cs)
  have hoperator := operator?_append he.startsWith (c :: cs)
  rw [List.cons_append] at hnumber hoperator
  have hcomment : commentLength (cs ++ e) = commentLength cs :=
    runLength_append (stops_of rfl rfl) he.startsWith cs
  unfold lexeme
  rw [hcomment, startsWith_append stops_isDigit he.startsWith, hnumber, hoperator,
    nameLexeme_append he]
  by_cases hc : c = '\\'
  · rw [hjoin hc]
    by_cases hq : isQuote c = true
    · rw [stringLexeme_append hq he]
    · simp [hq]
  · by_cases hq : isQuote c = true
    · rw [stringLexeme_append hq he]
      simp [hc]
    · simp [hq, hc]

end StyleCheck.Token
