import StyleCheck.Proofs.Token.LexemeCases
import StyleCheck.Proofs.Token.NumberForm

namespace StyleCheck.Token

def isWordChar (c : Char) : Bool :=
  isNameChar c || c == '.' || isSign c

variable {c d : Char} {cs : List Char}

theorem isWordChar_of_isNameChar (h : isNameChar c = true) : isWordChar c = true := by
  simp [isWordChar, h]

theorem isWordChar_of_isDigitOrUnderscore (h : isDigitOrUnderscore c = true) :
    isWordChar c = true := by
  apply isWordChar_of_isNameChar
  simp only [isDigitOrUnderscore, Bool.or_eq_true] at h
  rcases h with h | h <;> simp [isNameChar, isNameStart, h]

theorem isWordChar_of_isSign (h : isSign c = true) : isWordChar c = true := by
  simp [isWordChar, h]

theorem isWordChar_of_isExponentLetter (h : isExponentLetter c = true) : isWordChar c = true := by
  rcases isExponentLetter_iff.mp h with rfl | rfl <;> rfl

theorem isWordChar_of_isImaginaryLetter (h : isImaginaryLetter c = true) :
    isWordChar c = true := by
  rcases isImaginaryLetter_iff.mp h with rfl | rfl <;> rfl

theorem isWordChar_of_isBaseLetter (h : isBaseLetter c = true) : isWordChar c = true := by
  rcases isBaseLetter_iff.mp h with rfl | rfl | rfl | rfl | rfl | rfl <;> rfl

theorem isWordChar_of_isHexDigitOrUnderscore (h : isHexDigitOrUnderscore c = true) :
    isWordChar c = true := by
  simp only [isHexDigitOrUnderscore, Bool.or_eq_true, Bool.and_eq_true, decide_eq_true_eq,
    beq_iff_eq] at h
  have halpha : ∀ {low high : Char}, low ≤ c → c ≤ high →
      ('a' ≤ low ∧ high ≤ 'z') ∨ ('A' ≤ low ∧ high ≤ 'Z') → isWordChar c = true := by
    intro low high hlow hhigh hrange
    have hletter : c.isAlpha = true := by
      rcases hrange with ⟨hfirst, hlast⟩ | ⟨hfirst, hlast⟩
      · have hlower : c.isLower = true := Bool.and_eq_true_iff.mpr
          ⟨decide_eq_true (UInt32.le_trans hfirst hlow),
            decide_eq_true (UInt32.le_trans hhigh hlast)⟩
        exact Bool.or_eq_true_iff.mpr (.inr hlower)
      · have hupper : c.isUpper = true := decide_eq_true
          ⟨UInt32.le_trans hfirst hlow, UInt32.le_trans hhigh hlast⟩
        exact Bool.or_eq_true_iff.mpr (.inl hupper)
    exact isWordChar_of_isNameChar (by simp [isNameChar, isNameStart, hletter])
  rcases h with ((h | ⟨h, h'⟩) | ⟨h, h'⟩) | rfl
  · exact isWordChar_of_isNameChar (by simp [isNameChar, h])
  · exact halpha h h' (.inl (by decide))
  · exact halpha h h' (.inr (by decide))
  · rfl

section Numbers

theorem isWordChar_of_mem_based {n : BasedNumber} (h : d ∈ n.spelling) : isWordChar d = true := by
  simp only [BasedNumber.spelling, List.mem_cons] at h
  rcases h with rfl | rfl | h
  · rfl
  · exact isWordChar_of_isBaseLetter n.isBaseLetter
  · exact isWordChar_of_isHexDigitOrUnderscore (n.areDigits d h)

theorem isWordChar_of_mem_decimal {n : DecimalNumber} (h : d ∈ n.spelling) :
    isWordChar d = true := by
  rcases n.cases_of_mem h with h | rfl | ⟨e, -, rfl⟩ | h | h
  · exact isWordChar_of_isDigitOrUnderscore h
  · rfl
  · exact isWordChar_of_isExponentLetter e.isExponentLetter
  · exact isWordChar_of_isSign h
  · exact isWordChar_of_isImaginaryLetter (n.isImaginaryLetter d h)

theorem isWordChar_of_mem_number (h : d ∈ cs.take (numberLength cs)) : isWordChar d = true := by
  obtain ⟨form, hform⟩ := exists_form cs
  rw [← hform] at h
  cases form with
  | based n => exact isWordChar_of_mem_based h
  | decimal n => exact isWordChar_of_mem_decimal h

theorem isWordChar_of_lexeme {kind : Kind} {extra : Nat} (h : lexeme c cs = .token kind extra)
    (hk : kind = .name ∨ kind = .number) : ∀ d ∈ c :: cs.take extra, isWordChar d = true := by
  intro d hd
  have hr := h ▸ reads_lexeme c cs
  cases hr with
  | number hc =>
    cases hn : numberLength (c :: cs) with
    | zero =>
      rw [hn, Nat.zero_sub, List.take_zero, List.mem_singleton] at hd
      rcases hc with hc | rfl
      · exact isWordChar_of_isNameChar (by simp [isNameChar, hd, hc])
      · rw [hd]
        rfl
    | succ n =>
      have htext : d ∈ (c :: cs).take (numberLength (c :: cs)) := by
        rw [hn] at hd ⊢
        exact hd
      exact isWordChar_of_mem_number htext
  | name hc =>
    rcases List.mem_cons.mp hd with rfl | hd
    · exact isWordChar_of_isNameChar (by simp [isNameChar, hc])
    · exact isWordChar_of_isNameChar (of_mem_takeWhile (take_runLength isNameChar cs ▸ hd))
  | comment | op | string => simp at hk

end Numbers

end StyleCheck.Token
