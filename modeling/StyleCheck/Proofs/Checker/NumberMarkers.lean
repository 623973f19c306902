import StyleCheck.Checker.Builtin
import StyleCheck.Proofs.Token.MaximalMunch

/-!
Which numbers are reported for an uppercase letter. The rule looks for the letter anywhere in the
text, so that it depends on the forms that a number may have.
-/

namespace StyleCheck

/-- Whether a letter that marks the base, the exponent or the imaginary part is uppercase. The
digits of a base are no such letters. -/
def Token.NumberForm.hasUppercaseMarker : NumberForm → Bool
  | .based n => n.letter.isUpper
  | .decimal n => n.exponent.any (·.letter.isUpper) || n.imaginary.any Char.isUpper

namespace Checker.NumberSpelling

open Token

/-- Earlier tokens come first, and at one token the partial float. -/
inductive Precedes : Violation → Violation → Prop
  | token {v w : Violation} {i j : Nat} {t u : Token} (hv : v.anchor = some (.ofToken i t))
      (hw : w.anchor = some (.ofToken j u)) (h : i < j) : Precedes v w
  | rule {v w : Violation} (h : v.anchor = w.anchor) (hv : v.rule = Rule.Catalogue.partialFloat)
      (hw : w.rule = Rule.Catalogue.badNumberSuffix) : Precedes v w

def isMarkerAt (i : Nat) (t : Token) (v : Violation) : Bool :=
  v.rule == Rule.Catalogue.badNumberSuffix && v.anchor == some (.ofToken i t)

structure ReportsMarkers (tokens : List Token) (violations : List Violation) : Prop where
  form : ∀ t ∈ tokens, t.kind = .number → ∃ form : NumberForm, form.spelling = t.text
  markers : ∀ i t, tokens[i]? = some t → t.kind = .number →
    ∀ form : NumberForm, form.spelling = t.text →
      violations.filter (isMarkerAt i t) =
        if form.hasUppercaseMarker then
          [(Violation.atToken Rule.Catalogue.badNumberSuffix i t).withText (String.ofList t.text)]
        else []
  numbers : ∀ v ∈ violations, ∃ i t, tokens[i]? = some t ∧ t.kind = .number ∧
    v.anchor = some (.ofToken i t) ∧
    (v.rule = Rule.Catalogue.partialFloat ∨ v.rule = Rule.Catalogue.badNumberSuffix)
  ordered : violations.Pairwise Precedes

section Spelling

variable {text : List Char}

theorem hasBase_of_forall (h : ∀ c ∈ text, isBaseLetter c = false) : hasBase text = false := by
  rcases text with - | ⟨a, - | ⟨b, - | ⟨c, text⟩⟩⟩ <;> try rfl
  rw [hasBase, h b (by simp), Bool.and_false]

theorem hasUppercaseBase_of_forall (h : ∀ c ∈ text, isBaseLetter c = false) :
    hasUppercaseBase text = false := by
  rcases text with - | ⟨a, - | ⟨b, text⟩⟩
  · rfl
  · rfl
  · have hb := h b (by simp)
    rw [Bool.eq_false_iff, ne_eq, isBaseLetter_iff] at hb
    simp only [not_or] at hb
    simp [hasUppercaseBase, hb]

theorem hasBadSuffix_based (n : BasedNumber) : hasBadSuffix n.spelling = n.letter.isUpper := by
  unfold BasedNumber.spelling
  rcases n.letter_eq with h | h | h | h | h | h <;>
    rw [h] <;> cases n.digits <;> rfl

theorem exists_capital_iff (n : DecimalNumber) : (∃ c ∈ n.spelling, c = 'E' ∨ c = 'J') ↔
    (∃ e, n.exponent = some e ∧ e.letter.isUpper = true) ∨
      ∃ c, n.imaginary = some c ∧ c.isUpper = true := by
  constructor
  · rintro ⟨c, hc, hcapital⟩
    rcases n.cases_of_mem hc with h | rfl | ⟨e, he, rfl⟩ | h | h
    · rcases hcapital with rfl | rfl <;> cases h
    · rcases hcapital with h | h <;> cases h
    · exact .inl ⟨e, he, by rcases hcapital with h | h <;> rw [h] <;> rfl⟩
    · rcases hcapital with rfl | rfl <;> cases h
    · exact .inr ⟨c, h, by rcases hcapital with rfl | rfl <;> rfl⟩
  · rintro (⟨e, he, hupper⟩ | ⟨c, hc, hupper⟩)
    · refine ⟨e.letter, ?_, ?_⟩
      · simp [DecimalNumber.spelling, he, exponentSpelling, Exponent.spelling]
      · rcases e.letter_eq with h | h
        · rw [h] at hupper
          cases hupper
        · exact .inl h
    · refine ⟨c, ?_, ?_⟩
      · simp [DecimalNumber.spelling, hc]
      · rcases n.imaginary_eq c hc with rfl | rfl
        · cases hupper
        · exact .inr rfl

theorem hasBadSuffix_decimal (n : DecimalNumber) : hasBadSuffix n.spelling =
    (n.exponent.any (·.letter.isUpper) || n.imaginary.any Char.isUpper) := by
  -- The letters of a base are not in the text, so the search for capitals decides.
  have hbase : ∀ c ∈ n.spelling, isBaseLetter c = false := fun _ => n.isBaseLetter_of_mem
  rw [hasBadSuffix, hasBase_of_forall hbase, hasUppercaseBase_of_forall hbase, Bool.eq_iff_iff]
  simpa only [Bool.not_false, Bool.true_and, Bool.false_or, List.any_eq_true, Bool.or_eq_true,
    beq_iff_eq, Option.any_eq_true] using exists_capital_iff n

theorem hasBadSuffix_spelling (form : NumberForm) :
    hasBadSuffix form.spelling = form.hasUppercaseMarker := by
  cases form with
  | based n => exact hasBadSuffix_based n
  | decimal n => exact hasBadSuffix_decimal n

end Spelling

section Reports

variable {i : Nat} {t : Token} {v w : Violation} {tokens : List Token} {settings : Settings}
  {file : SourceFile}

theorem of_mem_tokenViolations (h : v ∈ tokenViolations i t) : v.anchor = some (.ofToken i t) ∧
    (v.rule = Rule.Catalogue.partialFloat ∨ v.rule = Rule.Catalogue.badNumberSuffix) := by
  rcases eq_of_mem_tokenViolations h with rfl | rfl
  · exact ⟨rfl, .inl rfl⟩
  · exact ⟨rfl, .inr rfl⟩

theorem kind_of_mem_tokenViolations (h : v ∈ tokenViolations i t) : t.kind = .number := by
  by_contra hk
  rw [tokenViolations, if_neg hk] at h
  cases h

theorem pairwise_tokenViolations (i : Nat) (t : Token) :
    (tokenViolations i t).Pairwise Precedes :=
  (List.pairwise_pair.mpr (.rule rfl rfl rfl)).sublist (tokenViolations_sublist i t)

theorem filter_tokenViolations (hk : t.kind = .number) :
    (tokenViolations i t).filter (isMarkerAt i t) = if hasBadSuffix t.text then
        [(Violation.atToken Rule.Catalogue.badNumberSuffix i t).withText (String.ofList t.text)]
      else [] := by
  have hother : ∀ text, isMarkerAt i t
      ((Violation.atToken Rule.Catalogue.partialFloat i t).withText text) = false := fun _ => rfl
  have hmarker : ∀ text, isMarkerAt i t
      ((Violation.atToken Rule.Catalogue.badNumberSuffix i t).withText text) = true :=
    fun text => Bool.and_eq_true_iff.mpr ⟨rfl, beq_self_eq_true _⟩
  rw [tokenViolations, if_pos hk]
  split <;> split <;> simp [hother, hmarker]

theorem eq_of_isMarkerAt {j : Nat} {u : Token} (h : v ∈ tokenViolations j u)
    (hm : isMarkerAt i t v = true) : j = i := by
  have hanchor := eq_of_beq (Bool.and_eq_true_iff.mp hm).2
  rw [(of_mem_tokenViolations h).1, Option.some.injEq, Anchor.ofToken, Anchor.ofToken,
    Anchor.token.injEq] at hanchor
  exact hanchor.1

theorem pairwise_zipIdx {α : Type} (l : List α) : l.zipIdx.Pairwise fun a b => a.2 < b.2 := by
  rw [← List.pairwise_map, List.zipIdx_map_snd]
  exact List.pairwise_lt_range' 1

theorem filter_violations (hi : file.tokens[i]? = some t) :
    (checker.violations settings file).filter (isMarkerAt i t) =
      (tokenViolations i t).filter (isMarkerAt i t) := by
  have hmem : (t, i) ∈ file.tokens.zipIdx := List.mem_zipIdx_iff_getElem?.mpr hi
  obtain ⟨before, after, hsplit⟩ := List.append_of_mem hmem
  have hpairs := pairwise_zipIdx file.tokens
  rw [hsplit, List.pairwise_append, List.pairwise_cons] at hpairs
  obtain ⟨-, ⟨hafter, -⟩, hbefore⟩ := hpairs
  -- The tokens at other places report nothing that is anchored at this one.
  have hnil : ∀ others : List (Token × Nat), (∀ u ∈ others, u.2 ≠ i) →
      others.flatMap (fun u => (tokenViolations u.2 u.1).filter (isMarkerAt i t)) = [] := by
    intro others hne
    rw [List.flatMap_eq_nil_iff]
    intro u hu
    rw [List.filter_eq_nil_iff]
    exact fun v hv hm => hne u hu (eq_of_isMarkerAt hv hm)
  have hfirst := hnil before fun u hu => (hbefore u hu _ List.mem_cons_self).ne
  have hlast := hnil after fun u hu => (hafter u hu).ne'
  have hfilter : (checker.violations settings file).filter (isMarkerAt i t) =
      file.tokens.zipIdx.flatMap fun u => (tokenViolations u.2 u.1).filter (isMarkerAt i t) :=
    List.filter_flatMap
  rw [hfilter, hsplit, List.flatMap_append, List.flatMap_cons, hfirst, hlast, List.nil_append,
    List.append_nil]

theorem pairwise_violations : (checker.violations settings file).Pairwise Precedes := by
  apply List.pairwise_flatMap.mpr
  refine ⟨fun u _ => pairwise_tokenViolations u.2 u.1, ?_⟩
  refine (pairwise_zipIdx file.tokens).imp ?_
  intro a b hlt v hv w hw
  exact .token (of_mem_tokenViolations hv).1 (of_mem_tokenViolations hw).1 hlt

end Reports

theorem reportsMarkers_of_tokenize (settings : Settings) {source : List Char} {file : SourceFile}
    (h : tokenize source = .ok file.tokens) :
    ReportsMarkers file.tokens (checker.violations settings file) := by
  constructor
  · exact fun t ht hk => (isNumber_of_tokenize h ht hk).form
  · intro i t hi hk form hform
    rw [filter_violations hi, filter_tokenViolations hk, ← hform, hasBadSuffix_spelling]
  · intro v hv
    obtain ⟨⟨t, i⟩, hmem, hv⟩ := List.mem_flatMap.mp hv
    exact ⟨i, t, List.mem_zipIdx_iff_getElem?.mp hmem, kind_of_mem_tokenViolations hv,
      of_mem_tokenViolations hv⟩
  · exact pairwise_violations

def sumOfFour : Grammar := fun source =>
  let node := ParseTree.inner source
  let token := ParseTree.token source
  node "module" none 0 27
    [node "expression_statement" none 0 26
       [node "assignment" none 0 26
          [node "identifier" (some "left") 0 1 [], token "=" none 2 3,
           node "binary_operator" (some "right") 4 26
             [node "binary_operator" (some "left") 4 20
                [node "binary_operator" (some "left") 4 14
                   [node "integer" (some "left") 4 7 [], token "+" (some "operator") 8 9,
                    node "integer" (some "right") 10 14 []],
                 token "+" (some "operator") 15 16, node "float" (some "right") 17 20 []],
              token "+" (some "operator") 21 22, node "float" (some "right") 23 26 []]]]]

theorem reportsMarkers_of_mixed_numbers : ∃ file,
    SourceFile.read .standard sumOfFour "mixed.py" "x = 0XF + 0xEF + 1E5 + .5J\n".toList = .ok file ∧
    (checker.violations {} file).map (fun v => (v.rule.name, v.location)) =
      [("BadNumberSuffixViolation", ⟨1, 4⟩), ("BadNumberSuffixViolation", ⟨1, 17⟩),
        ("PartialFloatViolation", ⟨1, 23⟩), ("BadNumberSuffixViolation", ⟨1, 23⟩)] ∧
    ReportsMarkers file.tokens (checker.violations {} file) := by
  let tokens := [onLine 1 0 .name ['x'], onLine 1 2 .op ['='], onLine 1 4 .number "0XF".toList,
    onLine 1 8 .op ['+'], onLine 1 10 .number "0xEF".toList, onLine 1 15 .op ['+'],
    onLine 1 17 .number "1E5".toList, onLine 1 21 .op ['+'], onLine 1 23 .number ".5J".toList,
    onLine 1 26 .newline ['\n'], onLine 2 0 .endMarker []]
  have hread : SourceFile.read .standard sumOfFour "mixed.py" "x = 0XF + 0xEF + 1E5 + .5J\n".toList =
      .ok ⟨"mixed.py", _, tokens⟩ := rfl
  have htokens : tokenize "x = 0XF + 0xEF + 1E5 + .5J\n".toList = .ok tokens := rfl
  exact ⟨_, hread, by decide, reportsMarkers_of_tokenize {} htokens⟩

end Checker.NumberSpelling

end StyleCheck
