import StyleCheck.Proofs.Scenario.Verdict
import StyleCheck.Proofs.Traversal

namespace StyleCheck

def counted (ignored : List Rule) (violations : List Violation) : List Violation :=
  violations.filter (·.rule.code ∉ ignored.map (·.code))

def Violation.HasPlace (v : Violation) : Prop :=
  v.rule.target ≠ .file → v.anchor ≠ none ∧ v.location ≠ ⟨0, 0⟩

/-- The first thing in which violations differ from the expected rules. -/
inductive Mismatch (expected : List Rule) (actual : List Violation) : Failure → Prop
  | count (h : actual.length ≠ expected.length) :
    Mismatch expected actual (.count (expected.map (·.name)) (actual.map (·.record)))
  | rule {before after : List Violation} {earlier later : List Rule} {v : Violation} {rule : Rule}
    (hlength : actual.length = expected.length) (hactual : actual = before ++ v :: after)
    (hexpected : expected = earlier ++ rule :: later)
    (hbefore : before.map (·.rule.code) = earlier.map (·.code)) (hne : v.rule.code ≠ rule.code) :
    Mismatch expected actual (.rule before.length rule.name v.record)
  | unanchored {before after : List Violation} {v : Violation}
    (hcodes : actual.map (·.rule.code) = expected.map (·.code))
    (hactual : actual = before ++ v :: after) (hbefore : ∀ u ∈ before, u.HasPlace)
    (hv : ¬ v.HasPlace) : Mismatch expected actual (.unanchored before.length v.record)

theorem contains_iff {ignored : List Rule} {rule : Rule} :
    ignored.contains rule = true ↔ rule.code ∈ ignored.map (·.code) := by
  rw [List.contains_iff_exists_mem_beq, List.mem_map]
  constructor
  · rintro ⟨other, hother, h⟩
    exact ⟨other, hother, (Rule.beq_iff.mp h).symm⟩
  · rintro ⟨other, hother, h⟩
    exact ⟨other, hother, Rule.beq_iff.mpr h.symm⟩

theorem kept_eq_counted (ignored : List Rule) (violations : List Violation) :
    kept ignored violations = counted ignored violations := by
  apply List.filter_congr
  intro v _
  rw [Bool.eq_iff_iff, Bool.not_eq_true', Bool.eq_false_iff, Ne, Violation.isIgnored, contains_iff,
    decide_eq_true_iff]

theorem Violation.isUnanchored_iff {v : Violation} : v.isUnanchored = true ↔ ¬ v.HasPlace := by
  unfold isUnanchored HasPlace
  simp only [Bool.and_eq_true, bne_iff_ne, Bool.or_eq_true, Option.isNone_iff_eq_none, beq_iff_eq,
    Classical.not_imp, Classical.not_and_iff_not_or_not, Classical.not_not, Ne]

theorem Violation.isUnanchored_eq_false_iff {v : Violation} :
    v.isUnanchored = false ↔ v.HasPlace := by
  rw [Bool.eq_false_iff, Ne, isUnanchored_iff, Classical.not_not]

theorem findRuleFailure_append {before : List Violation} {earlier : List Rule}
    (h : before.map (·.rule.code) = earlier.map (·.code)) (index : Nat)
    (violations : List Violation) (rules : List Rule) :
    findRuleFailure index (before ++ violations) (earlier ++ rules) =
      findRuleFailure (index + before.length) violations rules := by
  induction before generalizing index earlier with
  | nil =>
    rw [List.map_eq_nil_iff.mp h.symm]
    rfl
  | cons v before ih =>
    obtain ⟨rule, earlier, rfl, hv, hbefore⟩ := List.map_eq_cons_iff.mp h.symm
    rw [List.cons_append, List.cons_append, findRuleFailure, if_pos (Rule.beq_iff.mpr hv.symm),
      ih hbefore.symm, List.length_cons, Nat.add_assoc, Nat.add_comm 1]

theorem findUnanchored_append {before : List Violation} (h : ∀ u ∈ before, u.HasPlace)
    (index : Nat) (violations : List Violation) :
    findUnanchored index (before ++ violations) =
      findUnanchored (index + before.length) violations := by
  induction before generalizing index with
  | nil => rfl
  | cons v before ih =>
    obtain ⟨hv, hbefore⟩ := List.forall_mem_cons.mp h
    rw [List.cons_append, findUnanchored, Violation.isUnanchored_eq_false_iff.mpr hv,
      if_neg Bool.false_ne_true, ih hbefore, List.length_cons, Nat.add_assoc, Nat.add_comm 1]

variable {violations : List Violation} {expected ignored : List Rule} {failure : Failure}

theorem checkRules_of_mismatch (h : Mismatch expected (kept ignored violations) failure) :
    checkRules violations expected ignored = .error failure := by
  unfold checkRules
  unfold kept at h
  generalize violations.filter (!·.isIgnored ignored) = actual at h
  cases h with
  | count h => exact if_pos h
  | @rule before after earlier later v rule hlength hactual hexpected hbefore hne =>
    rw [if_neg (not_not_intro hlength), hactual, hexpected, findRuleFailure_append hbefore,
      findRuleFailure, if_neg (hne ∘ Rule.beq_iff.mp), Nat.zero_add]
    rfl
  | @unanchored before after v hcodes hactual hbefore hv =>
    have hlength : actual.length = expected.length := by
      simpa only [List.length_map] using congrArg List.length hcodes
    rw [if_neg (not_not_intro hlength), (findRuleFailure_eq_ok_iff 0 hlength).mpr hcodes, hactual,
      findUnanchored_append hbefore]
    change findUnanchored (0 + before.length) (v :: after) = _
    rw [findUnanchored, if_pos (Violation.isUnanchored_iff.mpr hv), Nat.zero_add]

theorem checkRules_eq_ok_or_mismatch (violations : List Violation) (expected ignored : List Rule) :
    checkRules violations expected ignored = .ok () ∨
      ∃ failure, Mismatch expected (kept ignored violations) failure := by
  rw [checkRules_eq_ok_iff]
  generalize kept ignored violations = actual
  by_cases hlength : actual.length = expected.length
  · rcases map_eq_map_or_exists_first (f := (·.rule.code)) (g := (·.code)) hlength with hcodes |
      ⟨before, v, after, earlier, rule, later, hactual, hexpected, hbefore, hne⟩
    · cases hfind : actual.find? (·.isUnanchored) with
      | none =>
        have hplaces := List.find?_eq_none.mp hfind
        exact .inl ⟨hcodes, fun v hv => Bool.eq_false_iff.mpr (hplaces v hv)⟩
      | some v =>
        obtain ⟨hv, before, after, hactual, hbefore⟩ := List.find?_eq_some_iff_append.mp hfind
        refine .inr ⟨_, .unanchored hcodes hactual ?_ (Violation.isUnanchored_iff.mp hv)⟩
        intro u hu
        exact Violation.isUnanchored_eq_false_iff.mp (by simpa using hbefore u hu)
    · exact .inr ⟨_, .rule hlength hactual hexpected hbefore hne⟩
  · exact .inr ⟨_, .count hlength⟩

theorem checkRules_eq_error_iff : checkRules violations expected ignored = .error failure ↔
    Mismatch expected (kept ignored violations) failure := by
  constructor
  · intro h
    rcases checkRules_eq_ok_or_mismatch violations expected ignored with hok | ⟨other, hother⟩
    · rw [hok] at h
      cases h
    · rw [checkRules_of_mismatch hother] at h
      rwa [← Except.error.inj h]
  · exact checkRules_of_mismatch

theorem checkRules_congr {others : List Violation}
    (h : kept ignored violations = kept ignored others) :
    checkRules violations expected ignored = checkRules others expected ignored := by
  unfold kept at h
  unfold checkRules
  rw [h]

theorem counted_append_of_ignored {added : List Violation}
    (h : ∀ v ∈ added, v.rule.code ∈ ignored.map (·.code)) (before after : List Violation) :
    counted ignored (before ++ added ++ after) = counted ignored (before ++ after) := by
  have hadded : counted ignored added = [] := by
    apply List.filter_eq_nil_iff.mpr
    intro v hv
    simpa using h v hv
  unfold counted at hadded ⊢
  rw [List.filter_append, List.filter_append, hadded, List.append_nil, List.filter_append]

/-- The violations that count have the expected rules in order and a place each, or the first
mismatch is the failure. What is ignored can stand anywhere without a change of the result, and an
ignored rule cannot be met. -/
theorem checkRules_finds_first_mismatch (violations : List Violation)
    (expected ignored : List Rule) :
    (checkRules violations expected ignored = .ok () ↔
      (counted ignored violations).map (·.rule.code) = expected.map (·.code) ∧
        ∀ v ∈ counted ignored violations, v.HasPlace) ∧
    (∀ failure, checkRules violations expected ignored = .error failure ↔
      Mismatch expected (counted ignored violations) failure) ∧
    (∀ before added after, (∀ v ∈ added, v.rule.code ∈ ignored.map (·.code)) →
      checkRules (before ++ added ++ after) expected ignored =
        checkRules (before ++ after) expected ignored) ∧
    ((∃ rule ∈ expected, rule.code ∈ ignored.map (·.code)) →
      checkRules violations expected ignored ≠ .ok ()) := by
  refine ⟨?_, ?_, ?_, ?_⟩
  · rw [← kept_eq_counted, checkRules_eq_ok_iff]
    simp only [Violation.isUnanchored_eq_false_iff]
  · intro failure
    rw [← kept_eq_counted, checkRules_eq_error_iff]
  · intro before added after h
    apply checkRules_congr
    rw [kept_eq_counted, kept_eq_counted, counted_append_of_ignored h]
  · rintro ⟨rule, hrule, hi⟩
    exact checkRules_ne_ok_of_contains hrule (contains_iff.mpr hi) violations

end StyleCheck
