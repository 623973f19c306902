import StyleCheck.Proofs.Scenario.Combinations
import StyleCheck.Proofs.Scenario.IgnoredRules

namespace StyleCheck

namespace Scenario

theorem passed_add_skipped_add_failed (reports : List Report) :
    passedCount reports + (skips reports).length + (failures reports).length = reports.length := by
  unfold passedCount skips failures
  induction reports with
  | nil => rfl
  | cons report reports ih =>
    obtain ⟨id, outcome⟩ := report
    rw [List.length_cons, ← ih]
    simp only [List.countP_cons, List.filterMap_cons]
    cases outcome with
    | passed =>
      simp only [Report.isPassed, Report.skip?, Report.failure?, if_true]
      omega
    | skipped reason =>
      simp only [Report.isPassed, Report.skip?, Report.failure?, Bool.false_eq_true, if_false,
        List.length_cons]
      omega
    | failed error =>
      simp only [Report.isPassed, Report.skip?, Report.failure?, Bool.false_eq_true, if_false,
        List.length_cons]
      omega

theorem failures_eq_nil_iff {reports : List Report} :
    failures reports = [] ↔ ∀ report ∈ reports, ∀ error, report.outcome ≠ .failed error := by
  rw [failures, List.filterMap_eq_nil_iff]
  refine forall₂_congr ?_
  intro report _
  obtain ⟨id, outcome⟩ := report
  cases outcome with
  | passed => exact ⟨fun _ => nofun, fun _ => rfl⟩
  | skipped reason => exact ⟨fun _ => nofun, fun _ => rfl⟩
  | failed error => exact ⟨nofun, fun h => absurd rfl (h error)⟩

theorem result_eq_ok_iff {reports others : List Report} : result reports = .ok others ↔
    others = reports ∧ ∀ report ∈ reports, ∀ error, report.outcome ≠ .failed error := by
  rw [← failures_eq_nil_iff, result]
  by_cases h : failures reports = []
  · rw [if_pos (List.isEmpty_iff.mpr h), Except.ok.injEq, eq_comm (a := reports)]
    exact (and_iff_left h).symm
  · rw [if_neg fun hempty => h (List.isEmpty_iff.mp hempty)]
    exact ⟨nofun, fun hsame => absurd hsame.2 h⟩

theorem result_eq_error_iff {reports : List Report} {f : RunFailure} : result reports = .error f ↔
    f = ⟨reports.length, failures reports⟩ ∧
      ∃ report ∈ reports, ∃ error, report.outcome = .failed error := by
  have hfails : (∃ report ∈ reports, ∃ error, report.outcome = .failed error) ↔
      failures reports ≠ [] := by
    rw [Ne, failures_eq_nil_iff]
    simp only [ne_eq, not_forall, not_not, exists_prop]
  rw [hfails, result]
  by_cases h : failures reports = []
  · rw [if_pos (List.isEmpty_iff.mpr h)]
    exact ⟨nofun, fun hf => absurd h hf.2⟩
  · rw [if_neg fun hempty => h (List.isEmpty_iff.mp hempty), Except.error.injEq, eq_comm]
    exact (and_iff_left h).symm

end Scenario

namespace Matrix

variable {m : Matrix} {i j k : Nat}

def restrict (m : Matrix) (i j k : Nat) : Matrix :=
  { m with
    templates := m.templates[i]?.toList
    values := m.values[j]?.toList
    modes := m.modes[k]?.toList }

theorem valueSets_restrict {values : String × Substitution} (hv : m.valueSets[j]? = some values) :
    (m.restrict i j k).valueSets = [values] := by
  have hrestrict : (m.restrict i j k).values = m.values[j]?.toList := rfl
  unfold valueSets at hv ⊢
  rw [hrestrict]
  by_cases hnone : m.values = []
  · rw [hnone] at hv ⊢
    obtain ⟨hj, hvalues⟩ := List.getElem?_eq_some_iff.mp hv
    cases Nat.lt_one_iff.mp hj
    cases hvalues
    rfl
  · rw [if_neg fun hempty => hnone (List.isEmpty_iff.mp hempty)] at hv
    rw [hv]
    rfl

theorem entries_restrict {template : String × List Char} {values : String × Substitution}
    {mode : Mode} (ht : m.templates[i]? = some template) (hv : m.valueSets[j]? = some values)
    (hm : m.modes[k]? = some mode) :
    (m.restrict i j k).entries = [m.entry template values mode] := by
  have htemplates : (m.restrict i j k).templates = [template] := congrArg Option.toList ht
  have hmodes : (m.restrict i j k).modes = [mode] := congrArg Option.toList hm
  rw [entries, htemplates, valueSets_restrict hv, hmodes]
  rfl

end Matrix

namespace Runner

open Scenario

variable {r : Runner} {grammar : Grammar} {checker : Checker} {e : Expectation}

theorem exists_report_iff {entry : Matrix.Entry} :
    (∃ report, r.report grammar checker e entry = some report) ↔
      ∀ scenario, entry.scenario = .ok scenario → dedent? scenario.text ≠ none := by
  unfold report
  cases entry.scenario with
  | error error => exact ⟨fun _ => nofun, fun _ => ⟨_, rfl⟩⟩
  | ok scenario =>
    simp only [runScenario, Preparation.prepare, Except.ok.injEq, forall_eq']
    cases dedent? scenario.text with
    | none => exact ⟨nofun, fun h => absurd rfl h⟩
    | some source => exact ⟨fun _ => nofun, fun _ => ⟨_, rfl⟩⟩

theorem id_of_report {entry : Matrix.Entry} {report : Report}
    (h : r.report grammar checker e entry = some report) : report.id = entry.id := by
  unfold Runner.report at h
  split at h
  · cases h
    rfl
  · obtain ⟨outcome, -, rfl⟩ := Option.map_eq_some_iff.mp h
    rfl

/-- A report for each combination, the one that it gets alone, and all of them counted. -/
structure Completes (r : Runner) (grammar : Grammar) (checker : Checker) (e : Expectation)
    (m : Matrix) (reports : List Report) : Prop where
  length : reports.length = m.size
  ids : reports.map (·.id) = m.entries.map (·.id)
  alone : ∀ i < m.templates.length, ∀ j < m.valueSets.length, ∀ k < m.modes.length,
    ∃ report, reports[m.place i j k]? = some report ∧
      r.run grammar checker e (m.restrict i j k) = some [report]
  counted : passedCount reports + (skips reports).length + (failures reports).length = m.size
  ok : ∀ others, result reports = .ok others ↔
    others = reports ∧ ∀ report ∈ reports, ∀ error, report.outcome ≠ .failed error
  error : ∀ f, result reports = .error f ↔
    f = ⟨m.size, reports.filterMap Report.failure?⟩ ∧
      ∃ report ∈ reports, ∃ error, report.outcome = .failed error

theorem getElem?_run {m : Matrix} {reports : List Report}
    (hrun : r.run grammar checker e m = some reports) (n : Nat) :
    m.entries[n]?.map (r.report grammar checker e) = reports[n]?.map some := by
  have hmap := congrArg (fun l => l[n]?) (Option.mapM_eq_some_iff.mp hrun)
  simp only [List.getElem?_map] at hmap
  exact hmap

theorem run_restrict {m : Matrix} {reports : List Report} {i j k : Nat}
    (hrun : r.run grammar checker e m = some reports) (hi : i < m.templates.length)
    (hj : j < m.valueSets.length) (hk : k < m.modes.length) :
    ∃ report, reports[m.place i j k]? = some report ∧
      r.run grammar checker e (m.restrict i j k) = some [report] := by
  have ht := List.getElem?_eq_getElem hi
  have hv := List.getElem?_eq_getElem hj
  have hm := List.getElem?_eq_getElem hk
  have hmap := getElem?_run hrun (m.place i j k)
  rw [Matrix.getElem?_entries ht hv hm] at hmap
  obtain ⟨report, hplace, hreport⟩ := Option.map_eq_some_iff.mp hmap.symm
  refine ⟨report, hplace, ?_⟩
  rw [run, Matrix.entries_restrict ht hv hm, Option.mapM_eq_some_iff]
  exact congrArg (fun o => [o]) hreport.symm

theorem map_id_of_run {m : Matrix} {reports : List Report}
    (hrun : r.run grammar checker e m = some reports) :
    reports.map (·.id) = m.entries.map (·.id) := by
  apply List.ext_getElem?
  intro n
  have hmap := getElem?_run hrun n
  simp only [List.getElem?_map]
  cases hentry : m.entries[n]? with
  | none =>
    rw [hentry] at hmap
    rw [Option.map_eq_none_iff.mp hmap.symm]
    rfl
  | some entry =>
    rw [hentry] at hmap
    obtain ⟨report, hplace, hreport⟩ := Option.map_eq_some_iff.mp hmap.symm
    rw [hplace]
    exact congrArg some (id_of_report hreport.symm)

theorem completes_of_run {m : Matrix} {reports : List Report}
    (hrun : r.run grammar checker e m = some reports) :
    r.Completes grammar checker e m reports := by
  have hlength : reports.length = m.size := by
    have hmap := congrArg List.length (Option.mapM_eq_some_iff.mp hrun)
    rw [List.length_map, List.length_map, Matrix.length_entries] at hmap
    exact hmap.symm
  refine ⟨hlength, map_id_of_run hrun, ?_, ?_, ?_, ?_⟩
  · intro i hi j hj k hk
    exact run_restrict hrun hi hj hk
  · rw [passed_add_skipped_add_failed, hlength]
  · intro others
    exact result_eq_ok_iff
  · intro f
    rw [← hlength]
    exact result_eq_error_iff

theorem run_completes_iff (m : Matrix) :
    (∃ reports, r.run grammar checker e m = some reports ∧
      r.Completes grammar checker e m reports) ↔
    ∀ entry ∈ m.entries, ∀ scenario, entry.scenario = .ok scenario →
      dedent? scenario.text ≠ none := by
  have hruns : (∃ reports, r.run grammar checker e m = some reports) ↔
      ∀ entry ∈ m.entries, ∀ scenario, entry.scenario = .ok scenario →
        dedent? scenario.text ≠ none := by
    refine Option.exists_mapM_eq_some_iff.trans ?_
    exact forall₂_congr fun _ _ => exists_report_iff
  rw [← hruns]
  constructor
  · rintro ⟨reports, hrun, -⟩
    exact ⟨reports, hrun⟩
  · rintro ⟨reports, hrun⟩
    exact ⟨reports, hrun, completes_of_run hrun⟩

/-- A run is a complete cross product exactly when the margin of every text can be taken off. -/
theorem matrix_runs_apart (r : Runner) (grammar : Grammar) (checker : Checker) (e : Expectation)
    (m : Matrix) :
    m.Expands ∧ (m.HasPlainNames → (m.entries.map (·.id)).Nodup) ∧
    ((∃ reports, r.run grammar checker e m = some reports ∧
      r.Completes grammar checker e m reports) ↔
    ∀ entry ∈ m.entries, ∀ scenario, entry.scenario = .ok scenario →
      dedent? scenario.text ≠ none) :=
  ⟨m.expands, Matrix.HasPlainNames.nodup_ids, run_completes_iff m⟩

def unfilled : Matrix :=
  { templates := [("bad", "x = \x7bmissing\x7d\n".toList), ("good", "x = 1\n".toList)] }

open Expectation in
theorem matrix_runs_apart_of_unfilled :
    (unfilled.entries.map (·.id)).Nodup ∧
    ∃ reports, plainRunner.run fewTexts Checker.NumberSpelling.checker {} unfilled =
        some reports ∧
      plainRunner.Completes fewTexts Checker.NumberSpelling.checker {} unfilled reports := by
  obtain ⟨-, hids, hrun⟩ :=
    matrix_runs_apart plainRunner fewTexts Checker.NumberSpelling.checker {} unfilled
  have hnames : unfilled.HasPlainNames :=
    ⟨by decide, by decide, by decide, by decide, by decide⟩
  refine ⟨hids hnames, hrun.mpr ?_⟩
  intro entry hentry scenario hs
  rcases List.mem_pair.mp hentry with rfl | rfl
  · cases hs
  · cases hs
    decide

def oddMargin : Matrix :=
  { templates := [("odd", "\u2000x = 1\n\u2001y = 2\n".toList), ("good", "x = 1\n".toList)] }

open Expectation in
theorem not_matrix_runs_apart_oddMargin :
    (¬ ∃ reports, plainRunner.run fewTexts Checker.NumberSpelling.checker {} oddMargin =
        some reports ∧
      plainRunner.Completes fewTexts Checker.NumberSpelling.checker {} oddMargin reports) ∧
    plainRunner.run fewTexts Checker.NumberSpelling.checker {} (oddMargin.restrict 1 0 0) =
      some [⟨"good-regular", .passed⟩] := by
  have hrun : plainRunner.run fewTexts Checker.NumberSpelling.checker {} oddMargin = none := rfl
  refine ⟨?_, rfl⟩
  rintro ⟨reports, hreports, -⟩
  rw [hrun] at hreports
  cases hreports

end Runner

end StyleCheck
