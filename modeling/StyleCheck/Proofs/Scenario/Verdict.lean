import StyleCheck.Proofs.Traversal
import StyleCheck.Scenario.Runner

namespace StyleCheck

def kept (ignored : List Rule) (violations : List Violation) : List Violation :=
  violations.filter (!·.isIgnored ignored)

theorem findRuleFailure_eq_ok_iff {violations : List Violation} {rules : List Rule} (index : Nat)
    (h : violations.length = rules.length) : findRuleFailure index violations rules = .ok () ↔
      violations.map (·.rule.code) = rules.map (·.code) := by
  induction violations generalizing index rules with
  | nil =>
    have hr : rules = [] := List.length_eq_zero_iff.1 h.symm
    simp [hr, findRuleFailure]
  | cons v violations ih =>
    cases rules with
    | nil => simp at h
    | cons rule rules =>
      have hl : violations.length = rules.length := Nat.succ.inj h
      rw [findRuleFailure, List.map_cons, List.map_cons, List.cons.injEq]
      by_cases hv : (v.rule == rule) = true
      · rw [if_pos hv, ih (index + 1) hl]
        simp [Rule.beq_iff.1 hv]
      · rw [if_neg hv]
        constructor
        · intro hf
          simp at hf
        · rintro ⟨hc, _⟩
          exact absurd (Rule.beq_iff.2 hc) hv

theorem findUnanchored_eq_ok_iff {violations : List Violation} (index : Nat) :
    findUnanchored index violations = .ok () ↔ ∀ v ∈ violations, v.isUnanchored = false := by
  induction violations generalizing index with
  | nil => simp [findUnanchored]
  | cons v violations ih =>
    rw [findUnanchored, List.forall_mem_cons]
    by_cases hv : v.isUnanchored = true
    · simp [hv]
    · rw [if_neg hv, ih (index + 1)]
      simp [hv]

theorem checkRules_eq_ok_iff {violations : List Violation} {expected ignored : List Rule} :
    checkRules violations expected ignored = .ok () ↔
      (kept ignored violations).map (·.rule.code) = expected.map (·.code) ∧
        ∀ v ∈ kept ignored violations, v.isUnanchored = false := by
  unfold checkRules kept
  simp only
  generalize violations.filter (!·.isIgnored ignored) = actual
  by_cases hl : actual.length = expected.length
  · rw [if_neg (not_not_intro hl), Except.bind_eq_ok_iff, findUnanchored_eq_ok_iff]
    constructor
    · rintro ⟨_, hr, hu⟩
      exact ⟨(findRuleFailure_eq_ok_iff 0 hl).1 hr, hu⟩
    · rintro ⟨hr, hu⟩
      exact ⟨(), (findRuleFailure_eq_ok_iff 0 hl).2 hr, hu⟩
  · rw [if_pos hl]
    constructor
    · intro hf
      simp at hf
    · rintro ⟨hr, _⟩
      have := congrArg List.length hr
      simp only [List.length_map] at this
      exact absurd this hl

theorem checkRules_ne_ok_of_contains {expected ignored : List Rule} {rule : Rule}
    (hr : rule ∈ expected) (hi : ignored.contains rule = true) (violations : List Violation) :
    checkRules violations expected ignored ≠ .ok () := by
  intro hc
  have hcodes := (checkRules_eq_ok_iff.1 hc).1
  have hm : rule.code ∈ (kept ignored violations).map (·.rule.code) := by
    rw [hcodes]
    exact List.mem_map_of_mem hr
  obtain ⟨v, hv, hcode⟩ := List.mem_map.1 hm
  have hkept := (List.mem_filter.1 hv).2
  rw [Violation.isIgnored, List.contains_congr (Rule.beq_iff.2 hcode), hi] at hkept
  exact Bool.false_ne_true hkept

theorem Expectation.check_eq_ok_iff {e : Expectation} {violations : List Violation} :
    e.check violations = .ok () ↔ checkRules violations e.rules e.ignored = .ok () ∧
      ∀ t, e.text = some t → checkText violations t = .ok () := by
  unfold Expectation.check
  rw [Except.bind_eq_ok_iff]
  constructor
  · rintro ⟨_, hr, ht⟩
    refine ⟨hr, ?_⟩
    intro text he
    rwa [he] at ht
  · rintro ⟨hr, ht⟩
    refine ⟨(), hr, ?_⟩
    cases he : e.text with
    | none => rfl
    | some text => exact ht text he

namespace Runner

open Scenario

theorem checkSource_eq_ok_iff {r : Runner} {grammar : Grammar} {checker : Checker}
    {e : Expectation} {fileName : String} {source : List Char} :
    r.checkSource grammar checker e fileName source = .ok () ↔
      ∃ file, SourceFile.read r.pipeline grammar fileName source = .ok file ∧
        e.check (checker.violations r.settings file) = .ok () := by
  unfold checkSource
  rw [Except.bind_eq_ok_iff]
  simp only [Except.mapError_eq_ok_iff]

def Passes (r : Runner) (grammar : Grammar) (checker : Checker) (e : Expectation)
    (scenario : Scenario) : Prop :=
  r.runScenario grammar checker e scenario = some .passed

theorem passes_iff {r : Runner} {grammar : Grammar} {checker : Checker} {e : Expectation}
    {scenario : Scenario} : r.Passes grammar checker e scenario ↔
      ∃ source file, r.preparation.prepare grammar scenario.text = some (.ok (.ready source)) ∧
        SourceFile.read r.pipeline grammar scenario.fileName source = .ok file ∧
        e.check (checker.violations r.settings file) = .ok () := by
  unfold Passes runScenario
  rw [Option.map_eq_some_iff]
  constructor
  · rintro ⟨prepared, hp, ho⟩
    rcases prepared with error | ⟨source | reason⟩
    · simp [outcomeOf] at ho
    · cases hc : r.checkSource grammar checker e scenario.fileName source with
      | error error => simp [outcomeOf, hc] at ho
      | ok u =>
        obtain ⟨file, hf, hv⟩ := checkSource_eq_ok_iff.1 hc
        exact ⟨source, file, hp, hf, hv⟩
    · simp [outcomeOf] at ho
  · rintro ⟨source, file, hp, hf, hv⟩
    have hc := checkSource_eq_ok_iff.2 ⟨file, hf, hv⟩
    exact ⟨_, hp, by simp only [outcomeOf, hc]⟩

end Runner

end StyleCheck
