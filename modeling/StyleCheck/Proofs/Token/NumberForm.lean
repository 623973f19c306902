import StyleCheck.Proofs.Token.Locality

namespace StyleCheck.Token

/-- Spelled `0[xXoObB][0-9A-Fa-f_]*`. -/
structure BasedNumber where
  letter : Char
  digits : List Char
  letter_eq : letter = 'x' ∨ letter = 'X' ∨ letter = 'o' ∨ letter = 'O' ∨ letter = 'b' ∨ letter = 'B'
  digits_eq : ∀ c ∈ digits,
    c.isDigit = true ∨ ('A' ≤ c ∧ c ≤ 'F') ∨ ('a' ≤ c ∧ c ≤ 'f') ∨ c = '_'

/-- Spelled `[eE][+-]?[0-9][0-9_]*`. -/
structure Exponent where
  letter : Char
  sign : Option Char
  first : Char
  more : List Char
  letter_eq : letter = 'e' ∨ letter = 'E'
  sign_eq : ∀ c ∈ sign, c = '+' ∨ c = '-'
  isDigit : first.isDigit = true
  more_eq : ∀ c ∈ more, c.isDigit = true ∨ c = '_'

/-- Spelled `[0-9_]*([.][0-9_]*)?([eE][+-]?[0-9][0-9_]*)?[jJ]?`. -/
structure DecimalNumber where
  whole : List Char
  fraction : Option (List Char)
  exponent : Option Exponent
  imaginary : Option Char
  whole_eq : ∀ c ∈ whole, c.isDigit = true ∨ c = '_'
  fraction_eq : ∀ digits ∈ fraction, ∀ c ∈ digits, c.isDigit = true ∨ c = '_'
  imaginary_eq : ∀ c ∈ imaginary, c = 'j' ∨ c = 'J'

inductive NumberForm
  | based (number : BasedNumber)
  | decimal (number : DecimalNumber)

def BasedNumber.spelling (n : BasedNumber) : List Char :=
  '0' :: n.letter :: n.digits

def Exponent.spelling (e : Exponent) : List Char :=
  e.letter :: (e.sign.toList ++ e.first :: e.more)

def fractionSpelling : Option (List Char) → List Char
  | none => []
  | some digits => '.' :: digits

def exponentSpelling : Option Exponent → List Char
  | none => []
  | some e => e.spelling

def DecimalNumber.spelling (n : DecimalNumber) : List Char :=
  n.whole ++ (fractionSpelling n.fraction ++
    (exponentSpelling n.exponent ++ n.imaginary.toList))

def NumberForm.spelling : NumberForm → List Char
  | .based n => n.spelling
  | .decimal n => n.spelling

variable {p : Char → Bool} {c d : Char} {cs a u rest : List Char}

section Characters

theorem isDigitOrUnderscore_iff : isDigitOrUnderscore c = true ↔ c.isDigit = true ∨ c = '_' := by
  simp [isDigitOrUnderscore]

theorem isHexDigitOrUnderscore_iff : isHexDigitOrUnderscore c = true ↔
    c.isDigit = true ∨ ('A' ≤ c ∧ c ≤ 'F') ∨ ('a' ≤ c ∧ c ≤ 'f') ∨ c = '_' := by
  simp only [isHexDigitOrUnderscore, Bool.or_eq_true, Bool.and_eq_true, decide_eq_true_eq,
    beq_iff_eq, or_assoc]
  rw [or_left_comm (a := 'a' ≤ c ∧ c ≤ 'f')]

theorem isBaseLetter_iff : isBaseLetter c = true ↔
    c = 'x' ∨ c = 'X' ∨ c = 'o' ∨ c = 'O' ∨ c = 'b' ∨ c = 'B' := by
  simp [isBaseLetter]

theorem isSign_iff : isSign c = true ↔ c = '+' ∨ c = '-' := by
  simp [isSign]

theorem isExponentLetter_iff : isExponentLetter c = true ↔ c = 'e' ∨ c = 'E' := by
  simp [isExponentLetter]

theorem isImaginaryLetter_iff : isImaginaryLetter c = true ↔ c = 'j' ∨ c = 'J' := by
  simp [isImaginaryLetter]

theorem isDigitOrUnderscore_of_isDigit (h : c.isDigit = true) : isDigitOrUnderscore c = true :=
  isDigitOrUnderscore_iff.mpr (.inl h)

theorem isSign_of_isDigit (h : c.isDigit = true) : isSign c = false := by
  rw [Bool.eq_false_iff]
  intro hsign
  rcases isSign_iff.mp hsign with rfl | rfl <;> cases h

theorem isBaseLetter_of_isDigitOrUnderscore (h : isDigitOrUnderscore c = true) :
    isBaseLetter c = false := by
  rw [Bool.eq_false_iff]
  intro hbase
  rcases isBaseLetter_iff.mp hbase with rfl | rfl | rfl | rfl | rfl | rfl <;> cases h

theorem BasedNumber.isBaseLetter (n : BasedNumber) : Token.isBaseLetter n.letter = true :=
  isBaseLetter_iff.mpr n.letter_eq

theorem BasedNumber.areDigits (n : BasedNumber) :
    ∀ c ∈ n.digits, isHexDigitOrUnderscore c = true :=
  fun c hc => isHexDigitOrUnderscore_iff.mpr (n.digits_eq c hc)

theorem Exponent.isExponentLetter (e : Exponent) : Token.isExponentLetter e.letter = true :=
  isExponentLetter_iff.mpr e.letter_eq

theorem Exponent.isSign (e : Exponent) : ∀ c ∈ e.sign, Token.isSign c = true :=
  fun c hc => isSign_iff.mpr (e.sign_eq c hc)

theorem Exponent.areDigits (e : Exponent) :
    ∀ c ∈ e.first :: e.more, isDigitOrUnderscore c = true :=
  List.forall_mem_cons.mpr ⟨isDigitOrUnderscore_of_isDigit e.isDigit,
    fun c hc => isDigitOrUnderscore_iff.mpr (e.more_eq c hc)⟩

theorem DecimalNumber.areDigits (n : DecimalNumber) :
    ∀ c ∈ n.whole, isDigitOrUnderscore c = true :=
  fun c hc => isDigitOrUnderscore_iff.mpr (n.whole_eq c hc)

theorem DecimalNumber.areFractionDigits (n : DecimalNumber) :
    ∀ digits ∈ n.fraction, ∀ c ∈ digits, isDigitOrUnderscore c = true :=
  fun digits hdigits c hc => isDigitOrUnderscore_iff.mpr (n.fraction_eq digits hdigits c hc)

theorem DecimalNumber.isImaginaryLetter (n : DecimalNumber) :
    ∀ c ∈ n.imaginary, Token.isImaginaryLetter c = true :=
  fun c hc => isImaginaryLetter_iff.mpr (n.imaginary_eq c hc)

end Characters

section Runs

theorem startsWith_eq_true_iff : startsWith p cs = true ↔ ∃ c rest, cs = c :: rest ∧ p c = true := by
  cases cs with
  | nil => simp [startsWith]
  | cons c cs => simp [startsWith]

theorem take_runLength (p : Char → Bool) (cs : List Char) :
    cs.take (runLength p cs) = cs.takeWhile p :=
  (List.prefix_iff_eq_take.mp (List.takeWhile_prefix p)).symm

theorem of_mem_takeWhile (h : c ∈ cs.takeWhile p) : p c = true :=
  List.all_eq_true.mp List.all_takeWhile c h

theorem runLength_append_of_all (ha : ∀ c ∈ a, p c = true) (cs : List Char) :
    runLength p (a ++ cs) = a.length + runLength p cs := by
  rw [runLength, List.takeWhile_append_of_pos ha, List.length_append, runLength]

theorem runLength_eq_zero (h : startsWith p cs = false) : runLength p cs = 0 := by
  cases cs with
  | nil => rfl
  | cons c cs =>
    rw [runLength, List.takeWhile_cons_of_neg (by simpa [startsWith] using h), List.length_nil]

theorem length_le_run_add {f : List Char → Nat} (ha : ∀ c ∈ a, p c = true)
    (hu : startsWith p u = false) (hf : u.length ≤ f (u ++ rest)) :
    (a ++ u).length ≤ runLength p (a ++ (u ++ rest)) +
      f ((a ++ (u ++ rest)).drop (runLength p (a ++ (u ++ rest)))) := by
  rw [runLength_append_of_all ha, List.length_append]
  cases u with
  | nil =>
    simp only [List.length_nil]
    omega
  | cons c u =>
    have hrun : runLength p (c :: u ++ rest) = 0 := runLength_eq_zero hu
    rw [hrun, Nat.add_zero, List.drop_left]
    exact Nat.add_le_add_left hf _

theorem length_le_skip_add {f g : List Char → Nat}
    (hf : ∀ cs, startsWith p cs = false → f cs = 0) (hu : startsWith p u = false)
    (hg : u.length ≤ g (u ++ rest)) :
    u.length ≤ f (u ++ rest) + g ((u ++ rest).drop (f (u ++ rest))) := by
  cases u with
  | nil => exact Nat.zero_le _
  | cons c u =>
    have hskip : f (c :: u ++ rest) = 0 := hf _ hu
    rwa [hskip, Nat.zero_add, List.drop_zero]

end Runs

section Lengths

def lengthFromExponent (cs : List Char) : Nat :=
  exponentLength cs + imaginaryLength (cs.drop (exponentLength cs))

def lengthFromFraction (cs : List Char) : Nat :=
  fractionLength cs + lengthFromExponent (cs.drop (fractionLength cs))

theorem decimalLength_eq (cs : List Char) : decimalLength cs =
    runLength isDigitOrUnderscore cs +
      lengthFromFraction (cs.drop (runLength isDigitOrUnderscore cs)) := by
  simp only [decimalLength, lengthFromFraction, lengthFromExponent, List.drop_drop]
  omega

end Lengths

section Parts

theorem exists_one (p : Char → Bool) (cs : List Char) : ∃ one : Option Char,
    (∀ c ∈ one, p c = true) ∧ cs.take (if startsWith p cs then 1 else 0) = one.toList := by
  by_cases h : startsWith p cs = true
  · obtain ⟨c, rest, rfl, hc⟩ := startsWith_eq_true_iff.mp h
    exact ⟨some c, by simpa using hc, by rw [if_pos h]; rfl⟩
  · exact ⟨none, by simp, by rw [if_neg h]; rfl⟩

theorem eq_of_mem_digits (h : c ∈ cs.takeWhile isDigitOrUnderscore) :
    c.isDigit = true ∨ c = '_' :=
  isDigitOrUnderscore_iff.mp (of_mem_takeWhile h)

theorem exists_fraction (cs : List Char) : ∃ fraction : Option (List Char),
    (∀ digits ∈ fraction, ∀ c ∈ digits, c.isDigit = true ∨ c = '_') ∧
      cs.take (fractionLength cs) = fractionSpelling fraction := by
  unfold fractionLength
  split
  · rename_i cs
    refine ⟨some (cs.takeWhile isDigitOrUnderscore), ?_, ?_⟩
    · simpa using fun c => eq_of_mem_digits
    · rw [Nat.add_comm, List.take_succ_cons, take_runLength]
      rfl
  · exact ⟨none, by simp, rfl⟩

theorem exists_exponent (cs : List Char) : ∃ exponent : Option Exponent,
    cs.take (exponentLength cs) = exponentSpelling exponent := by
  cases cs with
  | nil => exact ⟨none, rfl⟩
  | cons c cs =>
    simp only [exponentLength]
    split
    · rename_i h
      obtain ⟨hletter, hdigit⟩ := Bool.and_eq_true_iff.mp h
      obtain ⟨first, rest, hrest, hfirst⟩ := startsWith_eq_true_iff.mp hdigit
      obtain ⟨sign, hsign, htake⟩ := exists_one isSign cs
      refine ⟨some ⟨c, sign, first, rest.takeWhile isDigitOrUnderscore,
        isExponentLetter_iff.mp hletter, fun c hc => isSign_iff.mp (hsign c hc), hfirst,
        fun _ => eq_of_mem_digits⟩, ?_⟩
      rw [Nat.add_assoc, Nat.add_comm 1, List.take_succ_cons, List.take_add, take_runLength, hrest,
        List.takeWhile_cons_of_pos (isDigitOrUnderscore_of_isDigit hfirst), signLength, htake]
      rfl
    · exact ⟨none, rfl⟩

theorem exists_decimal (cs : List Char) :
    ∃ number : DecimalNumber, number.spelling = cs.take (decimalLength cs) := by
  let rest := cs.drop (runLength isDigitOrUnderscore cs)
  obtain ⟨fraction, hfraction, htake⟩ := exists_fraction rest
  obtain ⟨exponent, htake'⟩ := exists_exponent (rest.drop (fractionLength rest))
  obtain ⟨imaginary, himaginary, htake''⟩ := exists_one isImaginaryLetter
    ((rest.drop (fractionLength rest)).drop (exponentLength (rest.drop (fractionLength rest))))
  refine ⟨⟨cs.takeWhile isDigitOrUnderscore, fraction, exponent, imaginary,
    fun _ => eq_of_mem_digits, hfraction,
    fun c hc => isImaginaryLetter_iff.mp (himaginary c hc)⟩, ?_⟩
  rw [decimalLength_eq, lengthFromFraction, lengthFromExponent, List.take_add, List.take_add,
    List.take_add, take_runLength, htake, htake', imaginaryLength, htake'']
  rfl

theorem exists_form (cs : List Char) :
    ∃ form : NumberForm, form.spelling = cs.take (numberLength cs) := by
  have hdecimal : ∀ cs : List Char, ∃ form : NumberForm, form.spelling = cs.take (decimalLength cs) := by
    intro cs
    obtain ⟨number, h⟩ := exists_decimal cs
    exact ⟨.decimal number, h⟩
  unfold numberLength
  split
  · rename_i letter cs
    split
    · rename_i hletter
      refine ⟨.based ⟨letter, cs.takeWhile isHexDigitOrUnderscore, isBaseLetter_iff.mp hletter,
        fun c hc => isHexDigitOrUnderscore_iff.mp (of_mem_takeWhile hc)⟩, ?_⟩
      rw [Nat.add_comm, List.take_succ_cons, List.take_succ_cons, take_runLength]
      rfl
    · exact hdecimal _
  · exact hdecimal _

end Parts

section Longest

theorem fractionLength_eq_zero (cs : List Char) (h : startsWith (· == '.') cs = false) :
    fractionLength cs = 0 := by
  cases cs with
  | nil => rfl
  | cons c cs => exact fractionLength_of_ne (beq_eq_false_iff_ne.mp h) cs

theorem fractionLength_dot (cs : List Char) :
    fractionLength ('.' :: cs) = 1 + runLength isDigitOrUnderscore cs :=
  rfl

theorem exponentLength_eq_zero (cs : List Char) (h : startsWith isExponentLetter cs = false) :
    exponentLength cs = 0 := by
  cases cs with
  | nil => rfl
  | cons c cs =>
    have hc : isExponentLetter c = false := h
    rw [exponentLength, hc, Bool.false_and, if_neg Bool.false_ne_true]

theorem Exponent.signLength_eq (e : Exponent) (cs : List Char) :
    signLength (e.sign.toList ++ e.first :: cs) = e.sign.toList.length := by
  cases h : e.sign with
  | none =>
    have hfirst : startsWith Token.isSign (e.first :: cs) = false := isSign_of_isDigit e.isDigit
    simp [signLength, hfirst]
  | some c =>
    have hc : startsWith Token.isSign (c :: e.first :: cs) = true := e.isSign c h
    simp [signLength, hc]

theorem Exponent.exponentLength_eq (e : Exponent) (cs : List Char) :
    exponentLength (e.spelling ++ cs) =
      1 + e.sign.toList.length + runLength isDigitOrUnderscore (e.first :: e.more ++ cs) := by
  have hdigit : startsWith Char.isDigit (e.first :: (e.more ++ cs)) = true := e.isDigit
  simp only [Exponent.spelling, List.cons_append, List.append_assoc, exponentLength,
    e.signLength_eq, List.drop_left, e.isExponentLetter, hdigit, Bool.and_self, if_true]

theorem Exponent.drop_spelling (e : Exponent) (cs : List Char) (n : Nat) :
    (e.spelling ++ cs).drop (1 + e.sign.toList.length + n) = (e.first :: e.more ++ cs).drop n := by
  rw [Exponent.spelling, Nat.add_assoc, Nat.add_comm 1, List.cons_append, List.drop_succ_cons,
    List.append_assoc, List.drop_length_add_append]

namespace DecimalNumber

variable (n : DecimalNumber)

def marks : List Char :=
  exponentSpelling n.exponent ++ n.imaginary.toList

theorem startsWith_imaginary (hj : p 'j' = false) (hJ : p 'J' = false) :
    startsWith p n.imaginary.toList = false := by
  cases h : n.imaginary with
  | none => rfl
  | some c => rcases n.imaginary_eq c h with rfl | rfl <;> assumption

theorem startsWith_marks (he : p 'e' = false) (hE : p 'E' = false) (hj : p 'j' = false)
    (hJ : p 'J' = false) : startsWith p n.marks = false := by
  unfold marks
  cases n.exponent with
  | none => exact n.startsWith_imaginary hj hJ
  | some e =>
    have hletter : p e.letter = false := by
      rcases e.letter_eq with h | h <;> rw [h] <;> assumption
    exact hletter

theorem startsWith_fractionSpelling (hdot : p '.' = false) (he : p 'e' = false)
    (hE : p 'E' = false) (hj : p 'j' = false) (hJ : p 'J' = false) :
    startsWith p (fractionSpelling n.fraction ++ n.marks) = false := by
  cases n.fraction with
  | none => exact n.startsWith_marks he hE hj hJ
  | some digits => exact hdot

theorem length_imaginary_le (rest : List Char) :
    n.imaginary.toList.length ≤ imaginaryLength (n.imaginary.toList ++ rest) := by
  cases h : n.imaginary with
  | none => exact Nat.zero_le _
  | some c =>
    have hc : startsWith Token.isImaginaryLetter (c :: rest) = true := n.isImaginaryLetter c h
    simp [imaginaryLength, hc]

theorem length_marks_le (rest : List Char) :
    n.marks.length ≤ lengthFromExponent (n.marks ++ rest) := by
  have himaginary := n.length_imaginary_le rest
  unfold marks lengthFromExponent
  cases n.exponent with
  | none => exact length_le_skip_add exponentLength_eq_zero (n.startsWith_imaginary rfl rfl) himaginary
  | some e =>
    have hrun := length_le_run_add e.areDigits (n.startsWith_imaginary rfl rfl) himaginary
    rw [exponentSpelling, List.append_assoc, e.exponentLength_eq, e.drop_spelling]
    simp only [Exponent.spelling, List.length_append, List.length_cons] at hrun ⊢
    omega

theorem length_fraction_le (rest : List Char) :
    (fractionSpelling n.fraction ++ n.marks).length ≤
      lengthFromFraction (fractionSpelling n.fraction ++ n.marks ++ rest) := by
  have hmarks := n.length_marks_le rest
  unfold lengthFromFraction
  cases h : n.fraction with
  | none =>
    exact length_le_skip_add fractionLength_eq_zero (n.startsWith_marks rfl rfl rfl rfl) hmarks
  | some digits =>
    have hdigits := n.areFractionDigits digits h
    have hrun := length_le_run_add hdigits (n.startsWith_marks rfl rfl rfl rfl) hmarks
    rw [fractionSpelling, List.append_assoc, List.cons_append, List.cons_append, fractionLength_dot,
      Nat.add_comm 1, List.drop_succ_cons]
    simp only [List.length_append, List.length_cons] at hrun ⊢
    omega

theorem length_spelling_le (rest : List Char) :
    n.spelling.length ≤ decimalLength (n.spelling ++ rest) := by
  have hrun := length_le_run_add n.areDigits
    (n.startsWith_fractionSpelling rfl rfl rfl rfl rfl) (n.length_fraction_le rest)
  have hspelling : n.spelling ++ rest = n.whole ++ (fractionSpelling n.fraction ++ n.marks ++ rest) :=
    List.append_assoc n.whole (fractionSpelling n.fraction ++ n.marks) rest
  rw [decimalLength_eq, hspelling]
  exact hrun

theorem cases_of_mem (h : c ∈ n.spelling) : isDigitOrUnderscore c = true ∨ c = '.' ∨
    (∃ e ∈ n.exponent, c = e.letter) ∨ isSign c = true ∨ c ∈ n.imaginary := by
  simp only [spelling, List.mem_append, Option.mem_toList] at h
  rcases h with h | h | h | h
  · exact .inl (n.areDigits c h)
  · cases hf : n.fraction with
    | none => simp [hf, fractionSpelling] at h
    | some digits =>
      rw [hf, fractionSpelling, List.mem_cons] at h
      rcases h with h | h
      · exact .inr (.inl h)
      · exact .inl (n.areFractionDigits digits hf c h)
  · cases he : n.exponent with
    | none => simp [he, exponentSpelling] at h
    | some e =>
      rw [he, exponentSpelling, Exponent.spelling, List.mem_cons, List.mem_append,
        Option.mem_toList] at h
      rcases h with h | h | h
      · exact .inr (.inr (.inl ⟨e, rfl, h⟩))
      · exact .inr (.inr (.inr (.inl (e.isSign c h))))
      · exact .inl (e.areDigits c h)
  · exact .inr (.inr (.inr (.inr h)))

end DecimalNumber

theorem DecimalNumber.isBaseLetter_of_mem (n : DecimalNumber) (h : c ∈ n.spelling) :
    isBaseLetter c = false := by
  rcases n.cases_of_mem h with h | rfl | ⟨e, -, rfl⟩ | h | h
  · exact isBaseLetter_of_isDigitOrUnderscore h
  · rfl
  · rcases e.letter_eq with h | h <;> rw [h] <;> rfl
  · rcases isSign_iff.mp h with rfl | rfl <;> rfl
  · rcases n.imaginary_eq c h with rfl | rfl <;> rfl

theorem DecimalNumber.length_spelling_le_number (n : DecimalNumber) (rest : List Char) :
    n.spelling.length ≤ numberLength (n.spelling ++ rest) := by
  have hlength := n.length_spelling_le rest
  generalize hcs : n.spelling ++ rest = cs at hlength ⊢
  unfold numberLength
  split
  · rename_i letter cs
    split
    · rename_i hletter
      rcases hspelling : n.spelling with - | ⟨first, - | ⟨second, more⟩⟩
      · exact Nat.zero_le _
      · simp only [List.length_cons, List.length_nil]
        omega
      · -- Then the letter of the base is part of the number.
        rw [hspelling, List.cons_append, List.cons_append, List.cons_eq_cons,
          List.cons_eq_cons] at hcs
        have hbase : isBaseLetter second = false := n.isBaseLetter_of_mem (by simp [hspelling])
        rw [hcs.2.1, hletter] at hbase
        cases hbase
    · exact hlength
  · exact hlength

theorem NumberForm.length_spelling_le (form : NumberForm) (rest : List Char) :
    form.spelling.length ≤ numberLength (form.spelling ++ rest) := by
  cases form with
  | based n =>
    simp only [spelling, BasedNumber.spelling, List.cons_append, numberLength, n.isBaseLetter,
      if_true, runLength_append_of_all n.areDigits, List.length_cons]
    omega
  | decimal n => exact n.length_spelling_le_number rest

end Longest

end StyleCheck.Token
