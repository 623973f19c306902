import Mathlib.Data.List.Induction
import StyleCheck.Proofs.Checker.ReportOrder
import StyleCheck.Proofs.Token.LeadingWord

namespace StyleCheck.Checker.ModuleName

open Rule.Catalogue

def IsWord (w : List Char) : Prop :=
  w ≠ [] ∧ ∀ c ∈ w, c.isLower ∨ c.isDigit

def joined (words : List (List Char)) : List Char :=
  ['_'].intercalate words

def EndsInLetter (w : List Char) : Prop :=
  ∃ c, w.getLast? = some c ∧ c.isAlpha

def StartsWithDigit (w : List Char) : Prop :=
  ∃ c, w.head? = some c ∧ c.isDigit

def MayFollow (v w : List Char) : Prop :=
  ¬(EndsInLetter v ∧ StartsWithDigit w)

/-- The name is the given words, with at most one underscore in front and any number behind. -/
structure Spells (settings : Settings) (stem lead : List Char) (words : List (List Char))
    (n : Nat) : Prop where
  stem_eq : stem = lead ++ joined words ++ List.replicate n '_'
  lead : lead = [] ∨ lead = ['_']
  word : ∀ w ∈ words, IsWord w
  first : ∃ c w rest, words = (c :: w) :: rest ∧ c.isLower
  chain : words.IsChain MayFollow
  least : settings.minNameLength ≤ (joined words).length
  greatest : stem.length ≤ settings.maxNameLength

def IsSnakeCase (settings : Settings) (stem : List Char) : Prop :=
  ∃ lead words n, Spells settings stem lead words n

def IsMagicForm (stem : List Char) : Prop :=
  ∃ name, name ≠ [] ∧ stem = ['_', '_'] ++ name ++ ['_', '_']

variable {settings : Settings} {a c : Char} {v w cs rest stem lead : List Char}
  {words : List (List Char)} {n : Nat}

section Characters

theorem ne_underscore (h : c.isLower ∨ c.isDigit) : c ≠ '_' := by
  rintro rfl
  revert h
  decide

theorem underscore_notMem (h : IsWord w) : '_' ∉ w :=
  fun hmem => ne_underscore (h.2 _ hmem) rfl

theorem isDecimalDigit_eq_isDigit (h : c.isLower ∨ c.isDigit) :
    Text.isDecimalDigit c = c.isDigit := by
  have hranges : ∀ range ∈ Text.decimalDigits, range = (48, 57) ∨ 122 < range.1 := by decide
  have hdigit : c.isDigit = true ↔ 48 ≤ c.toNat ∧ c.toNat ≤ 57 := by
    simp only [Char.isDigit, Bool.and_eq_true, decide_eq_true_eq, ge_iff_le, UInt32.le_iff_toNat_le]
    rfl
  have hcode : (97 ≤ c.toNat ∧ c.toNat ≤ 122) ∨ 48 ≤ c.toNat ∧ c.toNat ≤ 57 :=
    h.imp Token.code_of_isLower hdigit.mp
  rw [Bool.eq_iff_iff, hdigit, Text.isDecimalDigit, Text.CodePoints.contains_iff]
  constructor
  · rintro ⟨range, hmem, hle⟩
    rcases hranges range hmem with rfl | hlarge
    · exact hle
    · omega
  · intro hle
    exact ⟨(48, 57), by decide, hle⟩

end Characters

section Joining

theorem joined_singleton (w : List Char) : joined [w] = w :=
  List.intercalate_singleton

theorem joined_cons_cons (v w : List Char) (ws : List (List Char)) :
    joined (v :: w :: ws) = v ++ '_' :: joined (w :: ws) := by
  rw [joined, List.intercalate_cons_cons, List.append_assoc]
  rfl

theorem joined_cons_char (c : Char) (w : List Char) (ws : List (List Char)) :
    joined ((c :: w) :: ws) = c :: joined (w :: ws) := by
  cases ws with
  | nil => rw [joined_singleton, joined_singleton]
  | cons x ws => rw [joined_cons_cons, joined_cons_cons, List.cons_append]

theorem head?_joined_append {ws : List (List Char)} (hw : w ≠ []) :
    (joined (w :: ws) ++ rest).head? = w.head? := by
  cases w with
  | nil => exact absurd rfl hw
  | cons c w => rw [joined_cons_char, List.cons_append, List.head?_cons, List.head?_cons]

theorem joined_ne_nil {ws : List (List Char)} (hw : w ≠ []) : joined (w :: ws) ≠ [] := by
  cases w with
  | nil => exact absurd rfl hw
  | cons c w =>
    rw [joined_cons_char]
    exact List.cons_ne_nil c _

end Joining

section ConsecutiveUnderscores

theorem hasConsecutiveUnderscores_cons (h : cs.head? ≠ some '_') :
    hasConsecutiveUnderscores (a :: cs) = hasConsecutiveUnderscores cs := by
  cases cs with
  | nil => rfl
  | cons b cs =>
    have hb : b ≠ '_' := fun hb => h (congrArg some hb)
    simp [hasConsecutiveUnderscores, hb]

theorem hasConsecutiveUnderscores_of_cons
    (h : hasConsecutiveUnderscores (a :: cs) = false) : hasConsecutiveUnderscores cs = false := by
  cases cs with
  | nil => rfl
  | cons b cs => exact (Bool.or_eq_false_iff.mp h).2

theorem hasConsecutiveUnderscores_of_notMem (h : '_' ∉ v) : hasConsecutiveUnderscores v = false := by
  induction v with
  | nil => rfl
  | cons a v ih =>
    rw [List.mem_cons, not_or] at h
    rw [hasConsecutiveUnderscores_cons, ih h.2]
    exact fun hhead => h.2 (List.mem_of_head? hhead)

theorem hasConsecutiveUnderscores_append (hv : '_' ∉ v) (hrest : rest.head? ≠ some '_') :
    hasConsecutiveUnderscores (v ++ '_' :: rest) = hasConsecutiveUnderscores rest := by
  induction v with
  | nil => exact hasConsecutiveUnderscores_cons hrest
  | cons a v ih =>
    rw [List.mem_cons, not_or] at hv
    rw [List.cons_append, ← ih hv.2]
    cases v with
    | nil => simp [hasConsecutiveUnderscores, Ne.symm hv.1]
    | cons b v =>
      apply hasConsecutiveUnderscores_cons
      exact fun hb => hv.2 (List.mem_of_head? (l := b :: v) hb)

theorem hasConsecutiveUnderscores_joined (hwords : ∀ w ∈ words, IsWord w) :
    hasConsecutiveUnderscores (joined words) = false := by
  induction words with
  | nil => rfl
  | cons v ws ih =>
    obtain ⟨hv, hws⟩ := List.forall_mem_cons.mp hwords
    cases ws with
    | nil =>
      rw [joined_singleton]
      exact hasConsecutiveUnderscores_of_notMem (underscore_notMem hv)
    | cons w ws =>
      have hw : IsWord w := hws w List.mem_cons_self
      rw [joined_cons_cons, hasConsecutiveUnderscores_append (underscore_notMem hv), ih hws]
      rw [← List.append_nil (joined (w :: ws)), head?_joined_append hw.1]
      exact fun hhead => underscore_notMem hw (List.mem_of_head? hhead)

end ConsecutiveUnderscores

section UnderscoredNumbers

theorem hasUnderscoredNumber_underscore_cons :
    hasUnderscoredNumber ('_' :: cs) = hasUnderscoredNumber cs := by
  match cs with
  | [] => rfl
  | [_] => rfl
  | _ :: _ :: _ => rfl

theorem hasUnderscoredNumber_cons (h : cs.head? ≠ some '_') :
    hasUnderscoredNumber (a :: cs) = hasUnderscoredNumber cs := by
  match cs with
  | [] => rfl
  | [_] => rfl
  | b :: _ :: _ =>
    have hb : b ≠ '_' := fun hb => h (congrArg some hb)
    simp [hasUnderscoredNumber, hb]

theorem hasUnderscoredNumber_cons_underscore :
    hasUnderscoredNumber (a :: '_' :: rest) =
      (a.isAlpha && rest.head?.any Text.isDecimalDigit || hasUnderscoredNumber rest) := by
  cases rest with
  | nil => simp [hasUnderscoredNumber]
  | cons c rest =>
    rw [hasUnderscoredNumber, hasUnderscoredNumber_underscore_cons]
    simp

theorem hasUnderscoredNumber_append (hne : v ≠ []) (hv : '_' ∉ v) :
    hasUnderscoredNumber (v ++ '_' :: rest) =
      (v.getLast?.any Char.isAlpha && rest.head?.any Text.isDecimalDigit ||
        hasUnderscoredNumber rest) := by
  induction v with
  | nil => exact absurd rfl hne
  | cons a v ih =>
    rw [List.mem_cons, not_or] at hv
    cases v with
    | nil => exact hasUnderscoredNumber_cons_underscore
    | cons b v =>
      rw [List.cons_append, hasUnderscoredNumber_cons, ih (List.cons_ne_nil b v) hv.2]
      · rfl
      · exact fun hb => hv.2 (List.mem_of_head? (l := b :: v) hb)

theorem hasUnderscoredNumber_of_notMem (h : '_' ∉ v) : hasUnderscoredNumber v = false := by
  induction v with
  | nil => rfl
  | cons a v ih =>
    rw [List.mem_cons, not_or] at h
    rw [hasUnderscoredNumber_cons, ih h.2]
    exact fun hhead => h.2 (List.mem_of_head? hhead)

theorem hasUnderscoredNumber_replicate (n : Nat) :
    hasUnderscoredNumber (List.replicate n '_') = false := by
  induction n with
  | zero => rfl
  | succ n ih => rw [List.replicate_succ, hasUnderscoredNumber_underscore_cons, ih]

theorem mayFollow_iff (hw : IsWord w) : MayFollow v w ↔
    (v.getLast?.any Char.isAlpha && w.head?.any Text.isDecimalDigit) = false := by
  obtain ⟨hne, hchars⟩ := hw
  cases w with
  | nil => exact absurd rfl hne
  | cons c w =>
    rw [MayFollow, ← Bool.not_eq_true, Bool.and_eq_true, Option.any_eq_true, EndsInLetter,
      StartsWithDigit, List.head?_cons, Option.any_some,
      isDecimalDigit_eq_isDigit (hchars c List.mem_cons_self)]
    simp

theorem hasUnderscoredNumber_joined (hne : words ≠ []) (hwords : ∀ w ∈ words, IsWord w) :
    hasUnderscoredNumber (joined words ++ List.replicate n '_') = false ↔
      words.IsChain MayFollow := by
  induction words with
  | nil => exact absurd rfl hne
  | cons v ws ih =>
    obtain ⟨hv, hws⟩ := List.forall_mem_cons.mp hwords
    cases ws with
    | nil =>
      rw [joined_singleton]
      cases n with
      | zero => simp [hasUnderscoredNumber_of_notMem (underscore_notMem hv)]
      | succ n =>
        rw [List.replicate_succ, hasUnderscoredNumber_append hv.1 (underscore_notMem hv),
          hasUnderscoredNumber_replicate]
        have hunder : Text.isDecimalDigit '_' = false := by decide
        cases n <;> simp [List.replicate_succ, hunder]
    | cons w ws =>
      have hw : IsWord w := hws w List.mem_cons_self
      rw [joined_cons_cons, List.append_assoc, List.cons_append,
        hasUnderscoredNumber_append hv.1 (underscore_notMem hv), head?_joined_append hw.1,
        Bool.or_eq_false_iff, ih (List.cons_ne_nil w ws) hws, ← mayFollow_iff hw,
        List.isChain_cons_cons]

end UnderscoredNumbers

section Decomposition

theorem isWordChar_iff : isWordChar c = true ↔ (c.isLower ∨ c.isDigit) ∨ c = '_' := by
  simp [isWordChar]

theorem isWord_cons (hc : c.isLower ∨ c.isDigit) (hw : ∀ d ∈ w, d.isLower ∨ d.isDigit) :
    IsWord (c :: w) :=
  ⟨List.cons_ne_nil c w, List.forall_mem_cons.mpr ⟨hc, hw⟩⟩

theorem exists_words (c : Char) (cs : List Char) (hc : c.isLower ∨ c.isDigit)
    (hcs : ∀ d ∈ cs, isWordChar d = true) (hno : hasConsecutiveUnderscores cs = false)
    (hlast : cs.getLast? ≠ some '_') :
    ∃ w ws, c :: cs = joined ((c :: w) :: ws) ∧ ∀ w' ∈ (c :: w) :: ws, IsWord w' := by
  -- Two characters at a time: if the second is an underscore, the third begins a word.
  match cs with
  | [] =>
    refine ⟨[], [], (joined_singleton [c]).symm, ?_⟩
    exact List.forall_mem_singleton.mpr (isWord_cons hc (List.forall_mem_nil _))
  | d :: cs =>
    obtain ⟨hd, hrest⟩ := List.forall_mem_cons.mp hcs
    rcases isWordChar_iff.mp hd with hd | rfl
    · have hlast' : cs.getLast? ≠ some '_' := by
        cases cs with
        | nil => simp
        | cons e cs => rwa [List.getLast?_cons_cons] at hlast
      obtain ⟨w, ws, heq, hwords⟩ :=
        exists_words d cs hd hrest (hasConsecutiveUnderscores_of_cons hno) hlast'
      obtain ⟨hw, hws⟩ := List.forall_mem_cons.mp hwords
      refine ⟨d :: w, ws, by rw [joined_cons_char, ← heq], ?_⟩
      exact List.forall_mem_cons.mpr ⟨isWord_cons hc hw.2, hws⟩
    · cases cs with
      | nil => exact absurd rfl hlast
      | cons e cs =>
        obtain ⟨he, hlater⟩ := List.forall_mem_cons.mp hrest
        have hne : e ≠ '_' := by
          rintro rfl
          simp [hasConsecutiveUnderscores] at hno
        have hno' := hasConsecutiveUnderscores_of_cons (hasConsecutiveUnderscores_of_cons hno)
        have hlast' : cs.getLast? ≠ some '_' := by
          cases cs with
          | nil => simp
          | cons f cs => rwa [List.getLast?_cons_cons, List.getLast?_cons_cons] at hlast
        obtain ⟨w, ws, heq, hwords⟩ :=
          exists_words e cs ((isWordChar_iff.mp he).resolve_right hne) hlater hno' hlast'
        refine ⟨[], (e :: w) :: ws, by rw [joined_cons_cons, ← heq]; rfl, ?_⟩
        exact List.forall_mem_cons.mpr ⟨isWord_cons hc (List.forall_mem_nil _), hwords⟩

theorem exists_underscores_behind (cs : List Char) :
    ∃ core n, cs = core ++ List.replicate n '_' ∧ core.getLast? ≠ some '_' := by
  induction cs using List.reverseRecOn with
  | nil => exact ⟨[], 0, rfl, by simp⟩
  | append_singleton cs c ih =>
    by_cases hc : c = '_'
    · obtain ⟨core, n, rfl, hcore⟩ := ih
      refine ⟨core, n + 1, ?_, hcore⟩
      rw [hc, List.append_assoc, ← List.replicate_succ']
    · exact ⟨cs ++ [c], 0, (List.append_nil _).symm, by simpa using hc⟩

theorem dropWhile_underscores_append (h : cs.head? ≠ some '_') (n : Nat) :
    (List.replicate n '_' ++ cs).dropWhile (· == '_') = cs := by
  rw [List.dropWhile_append_of_pos fun d hd => by simp [List.eq_of_mem_replicate hd]]
  cases cs with
  | nil => rfl
  | cons c cs =>
    have hc : c ≠ '_' := fun hc => h (congrArg some hc)
    simp [hc]

theorem trimUnderscores_eq (hlead : lead = [] ∨ lead = ['_']) (hhead : cs.head? ≠ some '_')
    (hlast : cs.getLast? ≠ some '_') (hne : cs ≠ []) (n : Nat) :
    trimUnderscores (lead ++ cs ++ List.replicate n '_') = cs := by
  have hreplicate : ∃ m, lead = List.replicate m '_' := by
    rcases hlead with rfl | rfl
    · exact ⟨0, rfl⟩
    · exact ⟨1, rfl⟩
  obtain ⟨m, rfl⟩ := hreplicate
  have hfront : (cs ++ List.replicate n '_').head? ≠ some '_' := by
    cases cs with
    | nil => exact absurd rfl hne
    | cons c cs => exact hhead
  rw [trimUnderscores, List.append_assoc, dropWhile_underscores_append hfront,
    List.reverse_append, List.reverse_replicate, dropWhile_underscores_append, List.reverse_reverse]
  rwa [List.head?_reverse]

theorem matchesPattern_iff : matchesPattern stem = true ↔
    ∃ lead c cs, stem = lead ++ c :: cs ∧ (lead = [] ∨ lead = ['_']) ∧ c.isLower ∧
      ∀ d ∈ cs, isWordChar d = true := by
  constructor
  · intro h
    unfold matchesPattern at h
    split at h
    · cases h
    · rename_i c cs hstem
      rw [Bool.and_eq_true, List.all_eq_true] at h
      split at hstem
      · rename_i hhead
        obtain ⟨rest, rfl⟩ := List.head?_eq_some_iff.mp hhead
        exact ⟨['_'], c, cs, by rw [← hstem]; rfl, .inr rfl, h⟩
      · exact ⟨[], c, cs, hstem, .inl rfl, h⟩
  · rintro ⟨lead, c, cs, rfl, rfl | rfl, hc, hcs⟩
    · have hne : c ≠ '_' := ne_underscore (.inl hc)
      simpa [matchesPattern, hne, hc] using hcs
    · simpa [matchesPattern, hc] using hcs

end Decomposition

theorem ordinaryViolations_eq_nil_iff : ordinaryViolations settings stem = [] ↔
    settings.minNameLength ≤ (trimUnderscores stem).length ∧
      stem.length ≤ settings.maxNameLength ∧ matchesPattern stem = true ∧
      hasConsecutiveUnderscores (trimUnderscores stem) = false ∧
      hasUnderscoredNumber stem = false := by
  simp [ordinaryViolations]

theorem hasUnderscoredNumber_lead (hlead : lead = [] ∨ lead = ['_']) :
    hasUnderscoredNumber (lead ++ cs) = hasUnderscoredNumber cs := by
  rcases hlead with rfl | rfl
  · rfl
  · exact hasUnderscoredNumber_underscore_cons

theorem isWordChar_of_mem_joined (hwords : ∀ w ∈ words, IsWord w) (h : c ∈ joined words) :
    isWordChar c = true := by
  induction words with
  | nil => cases h
  | cons v ws ih =>
    obtain ⟨hv, hws⟩ := List.forall_mem_cons.mp hwords
    cases ws with
    | nil =>
      rw [joined_singleton] at h
      exact isWordChar_iff.mpr (.inl (hv.2 c h))
    | cons w ws =>
      rw [joined_cons_cons, List.mem_append, List.mem_cons] at h
      rcases h with h | rfl | h
      · exact isWordChar_iff.mpr (.inl (hv.2 c h))
      · rfl
      · exact ih hws h

theorem getLast?_joined (hne : words ≠ []) (hwords : ∀ w ∈ words, IsWord w) :
    (joined words).getLast? ≠ some '_' := by
  induction words with
  | nil => exact absurd rfl hne
  | cons v ws ih =>
    obtain ⟨hv, hws⟩ := List.forall_mem_cons.mp hwords
    cases ws with
    | nil =>
      rw [joined_singleton]
      exact fun hlast => underscore_notMem hv (List.mem_of_getLast? hlast)
    | cons w ws =>
      have hlater := ih (List.cons_ne_nil w ws) hws
      have hnonempty : joined (w :: ws) ≠ [] := joined_ne_nil (hws w List.mem_cons_self).1
      rw [joined_cons_cons, List.getLast?_append, List.getLast?_cons]
      cases hlast : (joined (w :: ws)).getLast? with
      | none => exact absurd (List.getLast?_eq_none_iff.mp hlast) hnonempty
      | some d =>
        rw [hlast] at hlater
        simpa using hlater

theorem ordinaryViolations_eq_nil_iff_isSnakeCase :
    ordinaryViolations settings stem = [] ↔ IsSnakeCase settings stem := by
  rw [ordinaryViolations_eq_nil_iff, matchesPattern_iff]
  constructor
  · rintro ⟨hleast, hgreatest, ⟨lead, c, cs, rfl, hlead, hc, hcs⟩, hno, hnumber⟩
    have hne : c ≠ '_' := ne_underscore (.inl hc)
    obtain ⟨core, n, rfl, hcore⟩ := exists_underscores_behind cs
    have htrim : trimUnderscores (lead ++ c :: (core ++ List.replicate n '_')) = c :: core := by
      have hlast : (c :: core).getLast? ≠ some '_' := by
        cases core with
        | nil => simpa using hne
        | cons d core => rwa [List.getLast?_cons_cons]
      have hhead : (c :: core).head? ≠ some '_' := by simpa using hne
      have htrim := trimUnderscores_eq hlead hhead hlast (List.cons_ne_nil c core) n
      rwa [List.append_assoc] at htrim
    rw [htrim] at hleast hno
    obtain ⟨w, ws, heq, hwords⟩ := exists_words c core (.inl hc)
      (fun d hd => hcs d (List.mem_append_left _ hd)) (hasConsecutiveUnderscores_of_cons hno) hcore
    refine ⟨lead, (c :: w) :: ws, n, ?_⟩
    constructor
    · rw [← heq, List.append_assoc, List.cons_append]
    · exact hlead
    · exact hwords
    · exact ⟨c, w, ws, rfl, hc⟩
    · rw [hasUnderscoredNumber_lead hlead, ← List.cons_append, heq] at hnumber
      exact (hasUnderscoredNumber_joined (List.cons_ne_nil _ _) hwords).mp hnumber
    · rwa [← heq]
    · exact hgreatest
  · rintro ⟨lead, words, n, h⟩
    obtain ⟨c, w, ws, rfl, hc⟩ := h.first
    have hne : c ≠ '_' := ne_underscore (.inl hc)
    have hnonempty : (c :: w) :: ws ≠ [] := List.cons_ne_nil _ _
    have hhead : (joined ((c :: w) :: ws)).head? ≠ some '_' := by
      rw [joined_cons_char, List.head?_cons]
      simpa using hne
    have hjoined : joined ((c :: w) :: ws) ≠ [] := joined_ne_nil (List.cons_ne_nil c w)
    have htrim : trimUnderscores stem = joined ((c :: w) :: ws) := by
      rw [h.stem_eq]
      exact trimUnderscores_eq h.lead hhead (getLast?_joined hnonempty h.word) hjoined n
    rw [htrim]
    refine ⟨h.least, h.greatest, ?_, hasConsecutiveUnderscores_joined h.word, ?_⟩
    · refine ⟨lead, c, joined (w :: ws) ++ List.replicate n '_', ?_, h.lead, hc, ?_⟩
      · rw [h.stem_eq, joined_cons_char, List.append_assoc, List.cons_append]
      · intro d hd
        rcases List.mem_append.mp hd with hd | hd
        · have hmem : d ∈ joined ((c :: w) :: ws) := by
            rw [joined_cons_char]
            exact List.mem_cons_of_mem c hd
          exact isWordChar_of_mem_joined h.word hmem
        · rw [List.eq_of_mem_replicate hd]
          rfl
    · rw [h.stem_eq, List.append_assoc, hasUnderscoredNumber_lead h.lead]
      exact (hasUnderscoredNumber_joined hnonempty h.word).mpr h.chain

section Magic

theorem isMagic_iff : isMagic stem = true ↔ IsMagicForm stem := by
  rw [isMagic, Bool.and_eq_true, Bool.and_eq_true, decide_eq_true_eq, List.isPrefixOf_iff_prefix,
    List.isSuffixOf_iff_suffix]
  constructor
  · rintro ⟨⟨hlength, after, rfl⟩, hsuffix⟩
    rw [List.length_append, List.length_cons, List.length_singleton] at hlength
    have hafter : ['_', '_'] <:+ after :=
      List.suffix_of_suffix_length_le hsuffix (List.suffix_append _ _) (by simp; omega)
    obtain ⟨name, rfl⟩ := hafter
    refine ⟨name, ?_, (List.append_assoc _ _ _).symm⟩
    rintro rfl
    simp at hlength
  · rintro ⟨name, hne, rfl⟩
    have hpos := List.length_pos_iff.mpr hne
    refine ⟨⟨by simp; omega, ?_⟩, List.suffix_append _ _⟩
    rw [List.append_assoc]
    exact List.prefix_append _ _

theorem not_isMagicForm_of_isSnakeCase (h : IsSnakeCase settings stem) : ¬IsMagicForm stem := by
  obtain ⟨lead, words, n, h⟩ := h
  obtain ⟨c, w, ws, rfl, hc⟩ := h.first
  have hne : c ≠ '_' := ne_underscore (.inl hc)
  rintro ⟨name, -, hstem⟩
  have heq := h.stem_eq
  rw [hstem, joined_cons_char] at heq
  rcases h.lead with rfl | rfl <;> simp [hne.symm] at heq

theorem mem_magicNames_iff : String.ofList stem ∈ magicNames ↔
    stem = "__init__".toList ∨ stem = "__main__".toList := by
  have hname : ∀ name : String, String.ofList stem = name ↔ stem = name.toList := by
    intro name
    constructor
    · rintro rfl
      exact String.toList_ofList.symm
    · rintro rfl
      exact String.ofList_toList
  rw [magicNames, List.mem_cons, List.mem_singleton, hname, hname]

end Magic

section Reports

theorem stemViolations_eq_nil_iff : stemViolations settings stem = [] ↔
    String.ofList stem ∉ settings.forbiddenModuleNames ∧
      (stem = "__init__".toList ∨ stem = "__main__".toList ∨ IsSnakeCase settings stem) := by
  rw [stemViolations]
  by_cases hforbidden : String.ofList stem ∈ settings.forbiddenModuleNames
  · simp [hforbidden]
  rw [if_neg hforbidden, ← or_assoc, ← mem_magicNames_iff]
  by_cases hmagic : isMagic stem = true
  · have hsnake : ¬IsSnakeCase settings stem :=
      fun h => not_isMagicForm_of_isSnakeCase h (isMagic_iff.mp hmagic)
    by_cases hname : String.ofList stem ∈ magicNames <;> simp [hmagic, hforbidden, hsnake, hname]
  · have hname : String.ofList stem ∉ magicNames := by
      intro hname
      rcases mem_magicNames_iff.mp hname with rfl | rfl <;> exact hmagic (by decide)
    rw [if_neg hmagic, ordinaryViolations_eq_nil_iff_isSnakeCase]
    simp [hforbidden, hname]

theorem length_stemViolations_le
    (h : String.ofList stem ∈ settings.forbiddenModuleNames ∨ IsMagicForm stem) :
    (stemViolations settings stem).length ≤ 1 := by
  rw [stemViolations]
  split
  · exact Nat.le_refl 1
  · rename_i hforbidden
    rw [if_pos (isMagic_iff.mpr (h.resolve_left hforbidden))]
    split
    · exact Nat.zero_le 1
    · exact Nat.le_refl 1

def ordinaryRules : List Rule :=
  [tooShortName, tooLongName, wrongModuleNamePattern, consecutiveUnderscoresInName,
    underscoredNumberName]

theorem sublist_ite {p : Prop} [Decidable p] {v : Violation} {rule : Rule} (h : v.rule = rule) :
    ((if p then [v] else []).map (·.rule)).Sublist [rule] := by
  split
  · exact h ▸ List.Sublist.refl [v.rule]
  · exact List.nil_sublist _

theorem rules_ordinaryViolations (settings : Settings) (stem : List Char) :
    ((ordinaryViolations settings stem).map (·.rule)).Sublist ordinaryRules := by
  have hpattern : ((if matchesPattern stem then [] else [report wrongModuleNamePattern stem]).map
      (·.rule)).Sublist [wrongModuleNamePattern] := by
    split
    · exact List.nil_sublist _
    · exact rule_report wrongModuleNamePattern stem ▸ List.Sublist.refl [_]
  simp only [ordinaryViolations, List.map_append]
  exact ((((sublist_ite (rule_report _ stem)).append (sublist_ite rfl)).append hpattern).append
    (sublist_ite (rule_report _ stem))).append (sublist_ite (rule_report _ stem))

end Reports

variable {file : SourceFile}

theorem violations_of_stem (settings : Settings)
    (h : FileName.stem? file.name.toList = some stem) :
    (checker.violations settings file = [] ↔
      String.ofList stem ∉ settings.forbiddenModuleNames ∧
        (stem = "__init__".toList ∨ stem = "__main__".toList ∨ IsSnakeCase settings stem)) ∧
    (String.ofList stem ∈ settings.forbiddenModuleNames ∨ IsMagicForm stem →
      (checker.violations settings file).length ≤ 1) ∧
    (¬(String.ofList stem ∈ settings.forbiddenModuleNames ∨ IsMagicForm stem) →
      ((checker.violations settings file).map (·.rule)).Sublist ordinaryRules ∧
        ((checker.violations settings file).map (·.rule.name)).Nodup) := by
  have hviolations : checker.violations settings file = stemViolations settings stem := by
    simp only [checker, h]
  rw [hviolations]
  refine ⟨stemViolations_eq_nil_iff, length_stemViolations_le, ?_⟩
  intro hordinary
  obtain ⟨hforbidden, hmagic⟩ := not_or.mp hordinary
  have heq : stemViolations settings stem = ordinaryViolations settings stem := by
    rw [stemViolations, if_neg hforbidden, if_neg (mt isMagic_iff.mp hmagic)]
  have hrules := rules_ordinaryViolations settings stem
  have hnames := hrules.map (·.name)
  rw [List.map_map] at hnames
  rw [heq]
  exact ⟨hrules, hnames.nodup (by decide)⟩

theorem violations_of_stem_json :
    FileName.stem? "tools/_json2_3to__.py".toList = some "_json2_3to__".toList ∧
    IsSnakeCase {} "_json2_3to__".toList ∧
    ∃ file : SourceFile, file.name = "tools/_json2_3to__.py" ∧ checker.violations {} file = [] := by
  let file : SourceFile := ⟨"tools/_json2_3to__.py", ⟨[], #[], []⟩, []⟩
  have hstem : FileName.stem? file.name.toList = some "_json2_3to__".toList := by decide +kernel
  have hclean : checker.violations {} file = [] := by decide +kernel
  refine ⟨hstem, ?_, file, rfl, hclean⟩
  obtain ⟨-, hinit | hmain | hsnake⟩ := (violations_of_stem {} hstem).1.mp hclean
  · exact absurd hinit (by decide)
  · exact absurd hmain (by decide)
  · exact hsnake

end StyleCheck.Checker.ModuleName
