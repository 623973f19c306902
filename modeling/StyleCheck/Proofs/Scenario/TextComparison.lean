import StyleCheck.Proofs.Text.Replacement
import StyleCheck.Scenario.Expectation

namespace StyleCheck

namespace Rule

def EndsInText (rule : Rule) : Prop :=
  ∃ lead, rule.template.toList = lead ++ ':' :: ' ' :: placeholder

theorem hasPlaceholder_iff {rule : Rule} : rule.hasPlaceholder = true ↔ rule.EndsInText := by
  unfold hasPlaceholder EndsInText
  rw [List.isSuffixOf_iff_suffix]
  simp only [List.IsSuffix, eq_comm]

theorem EndsInText.render_injective {rule : Rule} (h : rule.EndsInText) {x y : String}
    (hxy : renderTemplate rule.template x = renderTemplate rule.template y) : x = y := by
  obtain ⟨lead, hlead⟩ := h
  have hplace : placeholder <:+: rule.template.toList :=
    ⟨lead ++ [':', ' '], [], by rw [hlead]; simp⟩
  apply String.toList_injective
  apply Text.replace_injective (List.cons_ne_nil _ _) hplace
  exact String.ofList_injective hxy

end Rule

namespace Violation

theorem message_eq_iff {v w : Violation} (hrule : w.rule = v.rule) (h : v.rule.EndsInText)
    (hbaseline : w.baseline = v.baseline) :
    w.message = v.message ↔ w.text.getD "" = v.text.getD "" := by
  unfold message
  rw [hrule, hbaseline]
  constructor
  · intro hm
    exact h.render_injective ((String.append_left_inj _).mp hm)
  · intro ht
    rw [ht]

end Violation

section CheckText

variable {v : Violation} {others : List Violation} {t : TextExpectation}

theorem checkText_cons (h : v.rule.EndsInText) (hone : t.multiple = true ∨ others = [])
    (hbaseline : t.baseline = v.baseline) : checkText (v :: others) t =
      if t.text = v.text.getD "" then .ok ()
      else .error (.message { v with text := some t.text }.message v.record) := by
  have hm : ({ v with text := some t.text } : Violation).message = v.message ↔
      t.text = v.text.getD "" := Violation.message_eq_iff rfl h rfl
  unfold checkText
  rw [if_neg, hbaseline]
  · simp only [Rule.hasPlaceholder_iff.mpr h, if_true, hm]
  · rintro ⟨hmultiple, hlength⟩
    rcases hone with hone | rfl
    · simp [hone] at hmultiple
    · exact hlength rfl

/-- With the limit of the violation itself, its own text is accepted and every other one is refused.
So no two texts make the same message with the same limit, whatever they hold. -/
theorem checkText_identifies_text (h : v.rule.EndsInText)
    (hone : t.multiple = true ∨ others = []) (hbaseline : t.baseline = v.baseline) :
    (checkText (v :: others) t = .ok () ↔ t.text = v.text.getD "") ∧
    (∀ failure, checkText (v :: others) t = .error failure ↔ t.text ≠ v.text.getD "" ∧
      failure = .message { v with text := some t.text }.message v.record) ∧
    ∀ anchor limit x y, Violation.message ⟨v.rule, anchor, some x, limit⟩ =
      Violation.message ⟨v.rule, anchor, some y, limit⟩ → x = y := by
  rw [checkText_cons h hone hbaseline]
  refine ⟨?_, ?_, ?_⟩
  · by_cases ht : t.text = v.text.getD "" <;> simp [ht]
  · intro failure
    by_cases ht : t.text = v.text.getD "" <;> simp [ht, eq_comm]
  · intro anchor limit x y hm
    have hmessage : Violation.message ⟨v.rule, anchor, some x, limit⟩ =
        Violation.message ⟨v.rule, anchor, some y, limit⟩ ↔ x = y :=
      Violation.message_eq_iff rfl h rfl
    exact hmessage.mp hm

def longName : Violation where
  rule := ⟨"LongName", "naming", 101, "\x7b0\x7d is long: \x7b0\x7d", .file, [], ""⟩
  anchor := none
  text := some "\x7b0\x7d > 4"
  baseline := some "4"

theorem checkText_identifies_text_of_longName : longName.rule.EndsInText ∧
    checkText [longName, longName] ⟨"\x7b0\x7d > 4", some "4", true⟩ = .ok () ∧
    checkText [longName, longName] ⟨"\x7b0\x7d", some "4", true⟩ ≠ .ok () := by
  have h : longName.rule.EndsInText := Rule.hasPlaceholder_iff.mp rfl
  refine ⟨h, (checkText_identifies_text h (.inl rfl) rfl).1.mpr rfl, ?_⟩
  rw [Ne, (checkText_identifies_text h (.inl rfl) rfl).1]
  decide

end CheckText

end StyleCheck
