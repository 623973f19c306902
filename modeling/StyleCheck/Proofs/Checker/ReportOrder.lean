import StyleCheck.Checker.Builtin
import StyleCheck.Proofs.Text.Bytes

namespace StyleCheck

theorem Position.ble_total (p q : Position) : (p.ble q || q.ble p) = true := by
  rw [Bool.or_eq_true, ble_iff, ble_iff]
  omega

theorem Position.origin_ble (p : Position) : Position.ble ⟨0, 0⟩ p = true := by
  apply ble_iff.mpr
  simp only
  omega

namespace Violation

def notAfter (a b : Violation) : Bool :=
  a.location.ble b.location

def byPlace (vs : List Violation) : List Violation :=
  vs.mergeSort notAfter

variable {v : Violation} {vs ws : List Violation}

theorem notAfter_trans (a b c : Violation) (hab : a.notAfter b = true)
    (hbc : b.notAfter c = true) : a.notAfter c = true :=
  Position.ble_trans hab hbc

theorem notAfter_total (a b : Violation) : (a.notAfter b || b.notAfter a) = true :=
  Position.ble_total _ _

theorem perm_byPlace (vs : List Violation) : (byPlace vs).Perm vs :=
  List.mergeSort_perm vs notAfter

theorem pairwise_byPlace (vs : List Violation) :
    (byPlace vs).Pairwise fun a b => a.notAfter b = true :=
  List.pairwise_mergeSort notAfter_trans notAfter_total vs

theorem filter_byPlace (p : Position) (vs : List Violation) :
    (byPlace vs).filter (·.location == p) = vs.filter (·.location == p) := by
  have hsame : (vs.filter (·.location == p)).Pairwise fun a b => a.notAfter b = true := by
    apply List.Pairwise.imp_of_mem (R := fun _ _ => True)
    · intro a b ha hb _
      have ha := beq_iff_eq.mp (List.mem_filter.mp ha).2
      have hb := beq_iff_eq.mp (List.mem_filter.mp hb).2
      rw [notAfter, ha, hb]
      exact Position.ble_refl p
    · exact List.pairwise_of_forall fun _ _ => trivial
  have hsub := (List.sublist_mergeSort notAfter_trans notAfter_total hsame
    List.filter_sublist).filter (·.location == p)
  rw [List.filter_filter] at hsub
  simp only [Bool.and_self] at hsub
  have hlen := ((perm_byPlace vs).filter (·.location == p)).length_eq
  exact (hsub.eq_of_length hlen.symm).symm

/-- The same violations by line and column, and at each place in the order that they had. -/
structure StablySorted (reported sorted : List Violation) : Prop where
  anchored : ∀ v ∈ sorted, ∀ anchor, v.anchor = some anchor → v.location = anchor.position
  unanchored : ∀ v ∈ sorted, v.anchor = none → v.location = ⟨0, 0⟩
  perm : sorted.Perm reported
  pairwise : sorted.Pairwise fun a b => a.location.ble b.location = true
  stable : ∀ p, sorted.filter (·.location == p) = reported.filter (·.location == p)

theorem stablySorted_byPlace (vs : List Violation) : StablySorted vs (byPlace vs) where
  anchored _ _ _ := location_of_anchor
  unanchored _ _ := location_of_unanchored
  perm := perm_byPlace vs
  pairwise := pairwise_byPlace vs
  stable p := filter_byPlace p vs

theorem byPlace_cons (v : Violation) (vs : List Violation) :
    byPlace vs = (byPlace vs).filter (!v.notAfter ·) ++ (byPlace vs).filter (v.notAfter ·) ∧
      byPlace (v :: vs) =
        (byPlace vs).filter (!v.notAfter ·) ++ v :: (byPlace vs).filter (v.notAfter ·) := by
  obtain ⟨before, after, hcons, htail, hbefore⟩ :=
    List.mergeSort_cons notAfter_trans notAfter_total v vs
  have hafter : ∀ w ∈ after, v.notAfter w = true := by
    have hp := pairwise_byPlace (v :: vs)
    rw [byPlace, hcons] at hp
    exact (List.pairwise_cons.mp (List.pairwise_append.mp hp).2.1).1
  have hearlier : (byPlace vs).filter (!v.notAfter ·) = before := by
    rw [byPlace, htail, List.filter_append, List.filter_eq_self.mpr hbefore,
      List.filter_eq_nil_iff.mpr (by simpa using hafter), List.append_nil]
  have hlater : (byPlace vs).filter (v.notAfter ·) = after := by
    rw [byPlace, htail, List.filter_append, List.filter_eq_self.mpr hafter,
      List.filter_eq_nil_iff.mpr (by simpa using hbefore), List.nil_append]
  rw [hearlier, hlater]
  exact ⟨htail, hcons⟩

theorem byPlace_cons_of_forall (h : ∀ w ∈ vs, v.notAfter w = true) :
    byPlace (v :: vs) = v :: byPlace vs := by
  have hsorted : ∀ w ∈ byPlace vs, v.notAfter w = true :=
    fun w hw => h w ((perm_byPlace vs).mem_iff.mp hw)
  rw [(byPlace_cons v vs).2, List.filter_eq_self.mpr hsorted,
    List.filter_eq_nil_iff.mpr (by simpa using hsorted), List.nil_append]

theorem byPlace_append_of_origin (h : ∀ v ∈ vs, v.location = ⟨0, 0⟩) :
    byPlace (vs ++ ws) = vs ++ byPlace ws := by
  induction vs with
  | nil => rfl
  | cons v vs ih =>
    obtain ⟨hv, hvs⟩ := List.forall_mem_cons.mp h
    rw [List.cons_append, byPlace_cons_of_forall, ih hvs, List.cons_append]
    intro w _
    rw [notAfter, hv]
    exact Position.origin_ble _

theorem sublist_byPlace (h : vs.Sublist ws) : (byPlace vs).Sublist (byPlace ws) := by
  induction h with
  | slnil => exact List.Sublist.refl _
  | @cons vs ws w _ ih =>
    obtain ⟨hsplit, hcons⟩ := byPlace_cons w ws
    rw [hsplit] at ih
    rw [hcons]
    exact ih.middle w
  | cons_cons w _ ih =>
    rw [(byPlace_cons w _).2, (byPlace_cons w _).2]
    exact (ih.filter _).append ((ih.filter _).cons_cons w)

end Violation

namespace Checker

open Rule.Catalogue

variable {settings : Settings} {file : SourceFile} {v : Violation}

theorem ModuleName.rule_report (rule : Rule) (stem : List Char) :
    (report rule stem).rule = rule := by
  unfold report
  split <;> rfl

theorem ModuleName.report_of_file {rule : Rule} (h : rule.target = .file) (stem : List Char) :
    (report rule stem).rule.target = .file ∧ (report rule stem).location = ⟨0, 0⟩ := by
  rw [rule_report]
  refine ⟨h, ?_⟩
  unfold report
  split <;> rfl

theorem ModuleName.of_file (h : v ∈ checker.violations settings file) :
    v.rule.target = .file ∧ v.location = ⟨0, 0⟩ := by
  simp only [checker] at h
  split at h
  · cases h
  · rename_i stem _
    simp only [stemViolations, ordinaryViolations] at h
    split at h
    · rw [List.mem_singleton.mp h]
      exact report_of_file rfl stem
    split at h
    · split at h
      · cases h
      · rw [List.mem_singleton.mp h]
        exact report_of_file rfl stem
    · simp only [List.mem_append, List.mem_ite_nil_left, List.mem_ite_nil_right,
        List.mem_singleton] at h
      rcases h with (((⟨-, rfl⟩ | ⟨-, rfl⟩) | ⟨-, rfl⟩) | ⟨-, rfl⟩) | ⟨-, rfl⟩
      · exact report_of_file rfl stem
      · exact ⟨rfl, rfl⟩
      · exact report_of_file rfl stem
      · exact report_of_file rfl stem
      · exact report_of_file rfl stem

theorem Layout.target_of_mem (h : v ∈ checker.violations settings file) :
    v.rule.target ≠ .file := by
  obtain ⟨node, -, rfl⟩ := List.mem_map.mp h
  simp [Violation.atNode, parametersIndentation]

theorem Unpacking.target_of_mem (h : v ∈ checker.violations settings file) :
    v.rule.target ≠ .file := by
  obtain ⟨node, -, h⟩ := List.mem_filterMap.mp h
  obtain ⟨target, -, h⟩ := Option.bind_eq_some_iff.mp h
  simp only at h
  split at h
  · cases h
    simp [Violation.atNode, Violation.withText, Violation.withBaseline, tooLongTupleUnpack]
  · cases h

theorem NumberSpelling.target_of_mem (h : v ∈ checker.violations settings file) :
    v.rule.target ≠ .file := by
  obtain ⟨⟨token, index⟩, -, h⟩ := List.mem_flatMap.mp h
  rcases NumberSpelling.eq_of_mem_tokenViolations h with rfl | rfl
  · simp [Violation.atToken, Violation.withText, partialFloat]
  · simp [Violation.atToken, Violation.withText, badNumberSuffix]

theorem Comments.target_of_mem (h : v ∈ checker.violations settings file) :
    v.rule.target ≠ .file := by
  obtain ⟨⟨token, index⟩, -, h⟩ := List.mem_filterMap.mp h
  simp only [commentViolation?] at h
  split at h
  · split at h
    · split at h
      · cases h
      · cases h
        simp [Violation.atToken, emptyComment]
    · split at h
      · cases h
        simp [Violation.atToken, Violation.withText, wrongMagicComment]
      · cases h
  · cases h

def reported (settings : Settings) (file : SourceFile) : List Violation :=
  all.flatMap (·.violations settings file)

theorem allViolations_eq : allViolations settings file = Violation.byPlace (reported settings file) :=
  rfl

theorem violationsOf?_name {checker : Checker} (h : checker ∈ all) :
    violationsOf? checker.name settings file = some (checker.violations settings file) := by
  simp only [all, List.mem_cons, List.not_mem_nil, or_false] at h
  rcases h with rfl | rfl | rfl | rfl | rfl <;> rfl

theorem allViolations_stablySorted (settings : Settings) (file : SourceFile) :
    ∃ lists : List (List Violation),
      all.map (fun checker => violationsOf? checker.name settings file) = lists.map some ∧
      Violation.StablySorted lists.flatten (allViolations settings file) ∧
      ∃ names rest, violationsOf? "module_name" settings file = some names ∧
        allViolations settings file = names ++ rest ∧
        (∀ v ∈ names, v.rule.target = .file) ∧ ∀ v ∈ rest, v.rule.target ≠ .file := by
  have hlists : all.map (fun checker => violationsOf? checker.name settings file) =
      (all.map (·.violations settings file)).map some := by
    rw [List.map_map]
    exact List.map_congr_left fun checker h => violationsOf?_name h
  have hflat : (all.map (·.violations settings file)).flatten = reported settings file :=
    List.flatMap_def.symm
  let names := ModuleName.checker.violations settings file
  let others := [Layout.checker, Unpacking.checker, NumberSpelling.checker,
    Comments.checker].flatMap (·.violations settings file)
  have hnames : ∀ v ∈ names, v.rule.target = .file ∧ v.location = ⟨0, 0⟩ :=
    fun v hv => ModuleName.of_file hv
  have hothers : ∀ v ∈ others, v.rule.target ≠ .file := by
    simp only [others, List.flatMap_cons, List.flatMap_nil, List.append_nil,
      List.forall_mem_append]
    exact ⟨fun v => Layout.target_of_mem, fun v => Unpacking.target_of_mem,
      fun v => NumberSpelling.target_of_mem, fun v => Comments.target_of_mem⟩
  refine ⟨_, hlists, ?_, names, Violation.byPlace others, rfl, ?_, ?_, ?_⟩
  · rw [hflat, allViolations_eq]
    exact Violation.stablySorted_byPlace _
  · exact Violation.byPlace_append_of_origin fun v hv => (hnames v hv).2
  · exact fun v hv => (hnames v hv).1
  · exact fun v hv => hothers v ((Violation.perm_byPlace others).mem_iff.mp hv)

end Checker

end StyleCheck
