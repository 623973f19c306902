import StyleCheck.Checker.Builtin
import StyleCheck.Proofs.Scenario.Verdict

/-!
What ignored violations do to a verdict. The rules are compared without them, but the text is
compared with the first of all violations, and all of them are counted.
-/

namespace StyleCheck

def Checker.Agree (ignored : List Rule) (settings : Settings) (a b : Checker) : Prop :=
  ∀ file, kept ignored (a.violations settings file) = kept ignored (b.violations settings file)

namespace Expectation

/-- Ignored violations do not decide whether a scenario passes. -/
def Indifferent (e : Expectation) : Prop :=
  ∀ (r : Runner) (grammar : Grammar) (scenario : Scenario) (a b : Checker),
    Checker.Agree e.ignored r.settings a b →
      (r.Passes grammar a e scenario ↔ r.Passes grammar b e scenario)

def fewTexts : Grammar := fun source =>
  let node := ParseTree.inner source
  let token := ParseTree.token source
  let width := Text.width source
  if source = [] then node "module" none 0 0 []
  else if source = "x = 1\n".toList then
    node "module" none 0 6
      [node "expression_statement" none 0 5
         [node "assignment" none 0 5
            [node "identifier" (some "left") 0 1 [], token "=" none 2 3,
             node "integer" (some "right") 4 5 []]]]
  else if source = "x = 1. + 0XFF\n".toList then
    node "module" none 0 14
      [node "expression_statement" none 0 13
         [node "assignment" none 0 13
            [node "identifier" (some "left") 0 1 [], token "=" none 2 3,
             node "binary_operator" (some "right") 4 13
               [node "float" (some "left") 4 6 [], token "+" (some "operator") 7 8,
                node "integer" (some "right") 9 13 []]]]]
  else
    .node (.over source "module" none true false false true 0 width)
      [.node (.over source "ERROR" none true true false true 0 width) []]

def plainRunner : Runner :=
  { settings := {} }

def constantChecker (violations : List Violation) : Checker :=
  ⟨"constant", .tree, fun _ _ => violations⟩

theorem passes_constantChecker {e : Expectation} {violations : List Violation} :
    plainRunner.Passes fewTexts (constantChecker violations) e ⟨.regular, "", []⟩ ↔
      e.check violations = .ok () := by
  rw [Runner.passes_iff]
  constructor
  · rintro ⟨_, _, _, _, hc⟩
    exact hc
  · intro hc
    exact ⟨[], _, rfl, rfl, hc⟩

theorem indifferent_iff_check {e : Expectation} : e.Indifferent ↔
    ∀ violations others, kept e.ignored violations = kept e.ignored others →
      (e.check violations = .ok () ↔ e.check others = .ok ()) := by
  constructor
  · intro h violations others hk
    rw [← passes_constantChecker, ← passes_constantChecker]
    exact h _ _ _ _ _ fun _ => hk
  · intro h r grammar scenario a b hab
    rw [Runner.passes_iff, Runner.passes_iff]
    constructor
    · rintro ⟨source, file, hp, hf, hc⟩
      exact ⟨source, file, hp, hf, (h _ _ (hab file)).1 hc⟩
    · rintro ⟨source, file, hp, hf, hc⟩
      exact ⟨source, file, hp, hf, (h _ _ (hab file)).2 hc⟩

theorem check_ne_ok_of_contains {e : Expectation} {rule : Rule} (hr : rule ∈ e.rules)
    (hi : e.ignored.contains rule = true) (violations : List Violation) :
    e.check violations ≠ .ok () := by
  intro hc
  exact checkRules_ne_ok_of_contains hr hi violations (check_eq_ok_iff.1 hc).1

theorem length_of_checkText {violations : List Violation} {t : TextExpectation}
    (ht : t.multiple = false) (h : checkText violations t = .ok ()) : violations.length = 1 := by
  unfold checkText at h
  split at h
  · simp at h
  · rename_i hs
    simpa [ht] using hs

theorem check_ne_ok_of_single {e : Expectation} {t : TextExpectation} (he : e.text = some t)
    (ht : t.multiple = false) (hr : 2 ≤ e.rules.length) (violations : List Violation) :
    e.check violations ≠ .ok () := by
  intro hc
  obtain ⟨hrules, htext⟩ := check_eq_ok_iff.1 hc
  have hone := length_of_checkText ht (htext t he)
  have hcodes := congrArg List.length (checkRules_eq_ok_iff.1 hrules).1
  have hle : (kept e.ignored violations).length ≤ violations.length := List.length_filter_le _ _
  simp only [List.length_map] at hcodes
  omega

def mute (rule : Rule) : Violation :=
  ⟨{ rule with template := "" }, none, none, none⟩

def spelling (t : TextExpectation) (rule : Rule) : Violation :=
  ⟨{ rule with template := String.ofList (':' :: ' ' :: Rule.placeholder), target := .file }, none,
    some t.text, t.baseline⟩

theorem checkText_mute (rule : Rule) (violations : List Violation) (t : TextExpectation) :
    checkText (mute rule :: violations) t ≠ .ok () := by
  have hp : (mute rule).rule.hasPlaceholder = false := rfl
  unfold checkText
  split
  · simp
  · simp [hp]

theorem checkText_spelling {t : TextExpectation} {rule : Rule} {violations : List Violation}
    (h : t.multiple = true ∨ violations = []) :
    checkText (spelling t rule :: violations) t = .ok () := by
  have hp : (spelling t rule).rule.hasPlaceholder = true := by
    simp [spelling, Rule.hasPlaceholder]
  unfold checkText
  rw [if_neg]
  · simp only [hp, if_true]
    exact if_pos rfl
  · rintro ⟨hm, hl⟩
    rcases h with h | h
    · simp [h] at hm
    · simp [h] at hl

variable {ignored rules : List Rule}

theorem kept_mute {rule : Rule} (h : ignored.contains rule = true) (violations : List Violation) :
    kept ignored (mute rule :: violations) = kept ignored violations := by
  have hm : ((mute rule).rule == rule) = true := Rule.beq_iff.2 rfl
  have hi : (mute rule).isIgnored ignored = true := by
    rw [Violation.isIgnored, List.contains_congr hm, h]
  simp [kept, hi]

theorem isIgnored_spelling (t : TextExpectation) (rule : Rule) :
    (spelling t rule).isIgnored ignored = ignored.contains rule := by
  have hs : ((spelling t rule).rule == rule) = true := Rule.beq_iff.2 rfl
  rw [Violation.isIgnored, List.contains_congr hs]

theorem kept_spelling (t : TextExpectation) (h : ∀ rule ∈ rules, ignored.contains rule = false) :
    kept ignored (rules.map (spelling t)) = rules.map (spelling t) := by
  apply List.filter_eq_self.2
  intro v hv
  obtain ⟨rule, hr, rfl⟩ := List.mem_map.1 hv
  rw [isIgnored_spelling, h rule hr]
  rfl

theorem checkRules_spelling (t : TextExpectation)
    (h : ∀ rule ∈ rules, ignored.contains rule = false) :
    checkRules (rules.map (spelling t)) rules ignored = .ok () := by
  apply checkRules_eq_ok_iff.2
  rw [kept_spelling t h, List.map_map]
  refine ⟨rfl, ?_⟩
  intro v hv
  obtain ⟨rule, _, rfl⟩ := List.mem_map.1 hv
  rfl

theorem exists_check_ne {e : Expectation} {t : TextExpectation} (he : e.text = some t)
    (hi : e.ignored ≠ []) (hr : ∀ rule ∈ e.rules, e.ignored.contains rule = false)
    (hm : t.multiple = true ∨ e.rules.length ≤ 1) :
    ∃ violations others, kept e.ignored violations = kept e.ignored others ∧
      e.check violations = .ok () ∧ e.check others ≠ .ok () := by
  obtain ⟨rule, more, hcons⟩ := List.exists_cons_of_ne_nil hi
  have hrule : e.ignored.contains rule = true := by
    rw [hcons]
    simp
  have hnot : ∀ violations, e.check (mute rule :: violations) ≠ .ok () := by
    intro violations hc
    exact checkText_mute rule violations t ((check_eq_ok_iff.1 hc).2 t he)
  have htext : ∀ violations, checkText violations t = .ok () →
      ∀ u, e.text = some u → checkText violations u = .ok () := by
    intro violations hc u hu
    rw [he] at hu
    rwa [← Option.some.inj hu]
  -- Where no rule is expected, one ignored violation decides by its message, else one in front.
  cases hrules : e.rules with
  | nil =>
    have hnone : kept e.ignored [spelling t rule] = [] := by
      simp [kept, isIgnored_spelling, hrule]
    refine ⟨[spelling t rule], [mute rule], ?_, ?_, hnot []⟩
    · rw [hnone, kept_mute hrule]
      rfl
    · apply check_eq_ok_iff.2
      constructor
      · apply checkRules_eq_ok_iff.2
        rw [hnone, hrules]
        simp
      · exact htext _ (checkText_spelling (.inr rfl))
  | cons first rest =>
    refine ⟨e.rules.map (spelling t), mute rule :: e.rules.map (spelling t), ?_, ?_, hnot _⟩
    · exact (kept_mute hrule _).symm
    · apply check_eq_ok_iff.2
      refine ⟨checkRules_spelling t hr, ?_⟩
      apply htext
      rw [hrules, List.map_cons]
      apply checkText_spelling
      rcases hm with hm | hm
      · exact .inl hm
      · right
        rw [hrules, List.length_cons] at hm
        rw [List.length_eq_zero_iff.1 (Nat.le_zero.1 (Nat.le_of_succ_le_succ hm))]
        rfl

/-- Ignored violations do not matter where no text is expected or nothing is ignored, and where
nothing can pass: an expected rule is ignored, or one violation has to have several rules. -/
theorem indifferent_iff (e : Expectation) : e.Indifferent ↔
    e.text = none ∨ e.ignored = [] ∨ (∃ rule ∈ e.rules, e.ignored.contains rule = true) ∨
      (2 ≤ e.rules.length ∧ ∃ t, e.text = some t ∧ t.multiple = false) := by
  rw [indifferent_iff_check]
  constructor
  · intro h
    cases he : e.text with
    | none => exact .inl rfl
    | some t =>
      right
      by_cases hi : e.ignored = []
      · exact .inl hi
      right
      by_cases hr : ∃ rule ∈ e.rules, e.ignored.contains rule = true
      · exact .inl hr
      right
      have hrules : ∀ rule ∈ e.rules, e.ignored.contains rule = false := by
        intro rule hm
        apply Bool.eq_false_iff.2
        intro hc
        exact hr ⟨rule, hm, hc⟩
      by_cases hm : t.multiple = true ∨ e.rules.length ≤ 1
      · obtain ⟨violations, others, hk, hv, ho⟩ := exists_check_ne he hi hrules hm
        exact absurd ((h violations others hk).1 hv) ho
      · rw [not_or] at hm
        exact ⟨Nat.lt_of_not_le hm.2, t, rfl, Bool.eq_false_iff.2 hm.1⟩
  · intro h violations others hk
    rcases h with he | hi | ⟨rule, hr, hi⟩ | ⟨hr, t, he, ht⟩
    · simp only [check_eq_ok_iff, checkRules_eq_ok_iff, he, hk]
      simp
    · have hkept : ∀ violations : List Violation, kept e.ignored violations = violations := by
        intro violations
        simp [kept, Violation.isIgnored, hi]
      rw [hkept, hkept] at hk
      rw [hk]
    · have := check_ne_ok_of_contains hr hi
      simp [this]
    · have := check_ne_ok_of_single he ht hr
      simp [this]

def without (ignored : List Rule) (checker : Checker) : Checker :=
  { checker with
    violations := fun settings file => kept ignored (checker.violations settings file) }

theorem agree_without (ignored : List Rule) (settings : Settings) (checker : Checker) :
    Checker.Agree ignored settings checker (without ignored checker) := by
  intro file
  simp [without, kept]

def mixedNumbers : Scenario :=
  ⟨.regular, "module.py", "x = 1. + 0XFF\n".toList⟩

def hexadecimal : Expectation :=
  (((ofRules [Rule.Catalogue.badNumberSuffix]).ignoring [Rule.Catalogue.partialFloat]).withText
    "0XFF").allowingMore

theorem not_indifferent_hexadecimal :
    Checker.Agree hexadecimal.ignored plainRunner.settings Checker.NumberSpelling.checker
        (without hexadecimal.ignored Checker.NumberSpelling.checker) ∧
      ¬ plainRunner.Passes fewTexts Checker.NumberSpelling.checker hexadecimal mixedNumbers ∧
      plainRunner.Passes fewTexts (without hexadecimal.ignored Checker.NumberSpelling.checker)
        hexadecimal mixedNumbers := by
  refine ⟨agree_without _ _ _, ?_, rfl⟩
  intro h
  cases h

end Expectation

end StyleCheck
