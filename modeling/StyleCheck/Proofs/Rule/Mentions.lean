import StyleCheck.Proofs.Text.Occurrences
import StyleCheck.Rule.Audit

/-!
Which occurrences of a name count as mentions. Only what stands behind an occurrence is looked at,
so that a longer name that ends in this one is counted as well.
-/

namespace StyleCheck.Registry

open Text

def goesOn (docs name : List Char) (i : Nat) : Bool :=
  (docs.drop (i + name.length)).head?.any isIdentifierChar

def isInside (docs : List Char) (i : Nat) : Bool :=
  (docs.take i).getLast?.any isIdentifierChar

/-- The places at which the name occurs, and not as a part of a longer one. -/
def wholeMentions (docs name : List Char) : List Nat :=
  (places name docs).filter fun i => !isInside docs i && !goesOn docs name i

def CountsWholeMentions (docs name : List Char) : Prop :=
  countMentions docs name = (wholeMentions docs name).length

variable {docs name : List Char}

theorem countMentions_eq (h : NoneOverlap name docs) :
    countMentions docs name = ((places name docs).filter (!goesOn docs name ·)).length := by
  rw [countMentions, following_eq_map h, List.countP_map, List.countP_eq_length_filter]
  rfl

/-- No occurrence that is counted is the end of a longer name. -/
theorem countsWholeMentions_iff (h : NoneOverlap name docs) :
    countMentions docs name = ((places name docs).filter (!goesOn docs name ·)).length ∧
      (CountsWholeMentions docs name ↔
        ∀ i ∈ places name docs, goesOn docs name i = false → isInside docs i = false) := by
  refine ⟨countMentions_eq h, ?_⟩
  rw [CountsWholeMentions, countMentions_eq h, wholeMentions, ← List.filter_filter, eq_comm,
    List.length_filter_eq_length_iff]
  simp only [List.mem_filter, Bool.not_eq_true', and_imp]

theorem countsWholeMentions_of_longer_name : ∃ docs name : List Char,
    docs = "a.Foo a.Fooé (a.Foo)".toList ∧ name = "a.Foo".toList ∧ NoneOverlap name docs ∧
      wholeMentions docs name = [0, 14] ∧ CountsWholeMentions docs name := by
  have h : NoneOverlap "a.Foo".toList "a.Foo a.Fooé (a.Foo)".toList :=
    noneOverlap_of_notMem (by decide) _
  exact ⟨_, _, rfl, rfl, h, by decide +kernel,
    (countsWholeMentions_iff h).2.mpr (by decide +kernel)⟩

theorem not_countsWholeMentions_of_longer_end : ∃ docs name : List Char,
    docs = "demo.Foo xdemo.Foo".toList ∧ name = "demo.Foo".toList ∧ NoneOverlap name docs ∧
      wholeMentions docs name = [0] ∧ ¬CountsWholeMentions docs name := by
  have h : NoneOverlap "demo.Foo".toList "demo.Foo xdemo.Foo".toList :=
    noneOverlap_of_notMem (by decide) _
  refine ⟨_, _, rfl, rfl, h, by decide +kernel, ?_⟩
  unfold CountsWholeMentions
  decide +kernel

end StyleCheck.Registry
