import StyleCheck.Proofs.Checker.Anchors
import StyleCheck.Proofs.Checker.ReportOrder

namespace StyleCheck

/-- The second settings allow all lengths that the first ones allow, and forbid the same names. -/
structure Settings.Looser (s t : Settings) : Prop where
  names : t.forbiddenModuleNames = s.forbiddenModuleNames
  min : t.minNameLength ≤ s.minNameLength
  max : s.maxNameLength ≤ t.maxNameLength
  unpack : s.maxTupleUnpackLength ≤ t.maxTupleUnpackLength

namespace Violation

open Rule.Catalogue

def withoutBaseline (v : Violation) : Violation :=
  { v with baseline := none }

def limitRules : List Rule :=
  [tooShortName, tooLongName, tooLongTupleUnpack]

/-- Some violations of limits are gone, and the others stand in the same order. -/
structure Relaxed (before after : List Violation) : Prop where
  sublist : after.Sublist before
  gone : ∃ gone, before.Perm (after ++ gone) ∧ ∀ v ∈ gone, v.rule ∈ limitRules

namespace Relaxed

variable {before after : List Violation}

theorem refl (vs : List Violation) : Relaxed vs vs where
  sublist := List.Sublist.refl vs
  gone := ⟨[], by simp, by simp⟩

theorem of_limits {vs : List Violation} (h : ∀ v ∈ vs, v.rule ∈ limitRules) : Relaxed vs [] where
  sublist := List.nil_sublist vs
  gone := ⟨vs, List.Perm.refl vs, h⟩

theorem append {more others : List Violation} (h : Relaxed before after)
    (h' : Relaxed more others) : Relaxed (before ++ more) (after ++ others) where
  sublist := h.sublist.append h'.sublist
  gone := by
    obtain ⟨gone, hperm, hgone⟩ := h.gone
    obtain ⟨gone', hperm', hgone'⟩ := h'.gone
    refine ⟨gone ++ gone', ?_, List.forall_mem_append.mpr ⟨hgone, hgone'⟩⟩
    apply (hperm.append hperm').trans
    rw [List.append_assoc, List.append_assoc]
    apply List.Perm.append_left
    rw [← List.append_assoc, ← List.append_assoc]
    exact List.perm_append_comm.append_right gone'

theorem byPlace (h : Relaxed before after) :
    Relaxed (Violation.byPlace before) (Violation.byPlace after) where
  sublist := sublist_byPlace h.sublist
  gone := by
    obtain ⟨gone, hperm, hgone⟩ := h.gone
    refine ⟨gone, ?_, hgone⟩
    apply (perm_byPlace before).trans (hperm.trans _)
    exact (perm_byPlace after).symm.append_right gone

theorem ite {p q : Prop} [Decidable p] [Decidable q] {v : Violation} (hpq : q → p)
    (h : v.rule ∈ limitRules) : Relaxed (if p then [v] else []) (if q then [v] else []) := by
  by_cases hq : q
  · rw [if_pos (hpq hq), if_pos hq]
    exact refl [v]
  · rw [if_neg hq]
    split
    · exact of_limits (List.forall_mem_singleton.mpr h)
    · exact refl []

theorem filterMap {α : Type} {f g : α → Option Violation} {as : List α}
    (h : ∀ a ∈ as, Relaxed (f a).toList (g a).toList) :
    Relaxed (as.filterMap f) (as.filterMap g) := by
  induction as with
  | nil => exact refl []
  | cons a as ih =>
    obtain ⟨ha, has⟩ := List.forall_mem_cons.mp h
    have hsplit : ∀ f : α → Option Violation,
        (a :: as).filterMap f = (f a).toList ++ as.filterMap f := by
      intro f
      cases hf : f a <;> simp [hf]
    rw [hsplit, hsplit]
    exact ha.append (ih has)

end Relaxed

theorem map_byPlace (vs : List Violation) :
    (byPlace vs).map withoutBaseline = byPlace (vs.map withoutBaseline) :=
  List.map_mergeSort fun _ _ _ _ => rfl

end Violation

namespace Checker

variable {s t : Settings} {file : SourceFile}

def plainViolations (checker : Checker) (settings : Settings) (file : SourceFile) :
    List Violation :=
  (checker.violations settings file).map Violation.withoutBaseline

theorem ModuleName.relaxed (h : s.Looser t) :
    Violation.Relaxed (plainViolations checker s file) (plainViolations checker t file) := by
  have hplain : ∀ {p : Prop} [Decidable p] (v : Violation),
      (if p then [v] else []).map Violation.withoutBaseline =
        if p then [v.withoutBaseline] else [] := by
    intro p _ v
    split <;> rfl
  simp only [plainViolations, checker]
  split
  · exact .refl _
  · rename_i stem _
    simp only [stemViolations, h.names]
    split
    · exact .refl _
    split
    · exact .refl _
    · simp only [ordinaryViolations, List.map_append, hplain]
      refine (((Violation.Relaxed.append ?_ ?_).append (.refl _)).append (.refl _)).append (.refl _)
      · apply Violation.Relaxed.ite
        · exact fun hshort => Nat.lt_of_lt_of_le hshort h.min
        · rw [Violation.withoutBaseline, rule_report]
          exact List.mem_cons_self
      · apply Violation.Relaxed.ite
        · exact fun hlong => Nat.lt_of_le_of_lt h.max hlong
        · exact List.mem_cons_of_mem _ List.mem_cons_self

theorem Unpacking.relaxed (h : s.Looser t) :
    Violation.Relaxed (plainViolations checker s file) (plainViolations checker t file) := by
  have hplain : ∀ {p : Prop} [Decidable p] (v : Violation),
      ((if p then some v else none).map Violation.withoutBaseline).toList =
        if p then [v.withoutBaseline] else [] := by
    intro p _ v
    split <;> rfl
  simp only [plainViolations, checker, List.map_filterMap]
  apply Violation.Relaxed.filterMap
  intro node _
  simp only [violation?]
  cases htarget : target? file.tree node with
  | none => exact .refl _
  | some target =>
    simp only [Option.bind_some, hplain]
    apply Violation.Relaxed.ite
    · exact fun hlong => Nat.lt_of_le_of_lt h.unpack hlong
    · exact List.mem_cons_of_mem _ (List.mem_cons_of_mem _ List.mem_cons_self)

theorem relaxed_allViolations (h : s.Looser t) (file : SourceFile) :
    Violation.Relaxed ((allViolations s file).map Violation.withoutBaseline)
      ((allViolations t file).map Violation.withoutBaseline) := by
  have hsplit : ∀ settings, (reported settings file).map Violation.withoutBaseline =
      all.flatMap fun checker => plainViolations checker settings file := by
    intro settings
    exact List.map_flatMap
  rw [allViolations_eq, allViolations_eq, Violation.map_byPlace, Violation.map_byPlace, hsplit,
    hsplit]
  apply Violation.Relaxed.byPlace
  simp only [all, List.flatMap_cons, List.flatMap_nil]
  exact (ModuleName.relaxed h).append ((Violation.Relaxed.refl _).append
    ((Unpacking.relaxed h).append (.refl _)))

def narrow : Settings :=
  { maxTupleUnpackLength := 1 }

def wide : Settings :=
  { minNameLength := 1, maxTupleUnpackLength := 2 }

theorem relaxed_allViolations_of_pair : ∃ file,
    SourceFile.read .standard pairAssignment "A.py" "a, b = x\n".toList = .ok file ∧
    narrow.Looser wide ∧
    (allViolations narrow file).map (·.rule.name) =
      ["TooShortNameViolation", "WrongModuleNamePatternViolation",
        "TooLongTupleUnpackViolation"] ∧
    (allViolations wide file).map (·.rule.name) = ["WrongModuleNamePatternViolation"] ∧
    Violation.Relaxed ((allViolations narrow file).map Violation.withoutBaseline)
      ((allViolations wide file).map Violation.withoutBaseline) := by
  have h : narrow.Looser wide := ⟨rfl, by decide, by decide, by decide⟩
  refine ⟨_, rfl, h, ?_, ?_, relaxed_allViolations h _⟩
  · rw [allViolations_eq, Violation.byPlace, List.mergeSort_of_pairwise (by decide +kernel)]
    decide +kernel
  · rw [allViolations_eq, Violation.byPlace, List.mergeSort_of_pairwise (by decide +kernel)]
    decide +kernel

end Checker

end StyleCheck
