import StyleCheck.Proofs.Scenario.IgnoredRules
import StyleCheck.Proofs.SyntaxTree.Decoration
import StyleCheck.Proofs.Traversal

namespace StyleCheck

def ParseTree.IsFaultless (tree : ParseTree) : Prop :=
  ∀ info ∈ tree.preorder, info.isError = false ∧ info.isMissing = false

def Grammar.AdmitsFaults (grammar : Grammar) : Prop :=
  ∀ source, ∀ info ∈ (grammar source).preorder,
    info.isError = true ∨ info.isMissing = true → (grammar source).info.hasError = true

theorem ParseTree.hasError_of_firstError? {tree : ParseTree} (h : tree.firstError? = none) :
    tree.info.hasError = false := by
  unfold firstError? at h
  split at h
  · cases h
  · rename_i hroot
    exact Bool.eq_false_iff.mpr hroot

theorem Grammar.AdmitsFaults.isFaultless {grammar : Grammar} (hg : grammar.AdmitsFaults)
    {source : List Char} (h : (grammar source).firstError? = none) :
    (grammar source).IsFaultless := by
  have hroot := ParseTree.hasError_of_firstError? h
  have hnot : ∀ info ∈ (grammar source).preorder,
      ¬(info.isError = true ∨ info.isMissing = true) := by
    intro info hinfo hfault
    rw [hg source info hinfo hfault] at hroot
    cases hroot
  intro info hinfo
  obtain ⟨he, hm⟩ := not_or.mp (hnot info hinfo)
  exact ⟨Bool.eq_false_iff.mpr he, Bool.eq_false_iff.mpr hm⟩

namespace Preparation

variable {p : Preparation} {grammar : Grammar} {source : List Char}

theorem checks_of_check {error : SyntaxError} (h : p.check grammar source = .error error) :
    p.checks = true := by
  unfold check at h
  split at h
  · assumption
  · cases h

def withIssues (p : Preparation) (issues : List KnownIssue) : Preparation :=
  { p with issues := p.issues ++ issues }

def first? (p : Preparation) (issues : List KnownIssue) : Option KnownIssue :=
  issues.find? (·.version == p.host.version)

theorem issue?_withIssues (p : Preparation) (issues : List KnownIssue) :
    (p.withIssues issues).issue? = p.issue?.or (p.first? issues) :=
  List.find?_append

theorem check_withIssues (p : Preparation) (issues : List KnownIssue) (grammar : Grammar)
    (source : List Char) : (p.withIssues issues).check grammar source =
      match p.check grammar source, p.first? issues with
      | .error error, some issue => .ok (.skipped (p.skipReason issue error))
      | result, _ => result := by
  have hchecks : (p.withIssues issues).checks = p.checks := rfl
  have hreason : ∀ issue error,
      (p.withIssues issues).skipReason issue error = p.skipReason issue error :=
    fun _ _ => rfl
  simp only [check, issue?_withIssues, hchecks, hreason]
  cases p.checks with
  | false => rfl
  | true =>
    cases (grammar source).firstError? with
    | none => rfl
    | some error =>
      cases p.issue? with
      | some issue => rfl
      | none => cases p.first? issues <;> rfl

end Preparation

namespace Runner

open Scenario

variable {r : Runner} {grammar : Grammar} {checker : Checker} {e : Expectation}

def withIssues (r : Runner) (issues : List KnownIssue) : Runner :=
  { r with preparation := r.preparation.withIssues issues }

/-- What becomes of an outcome when the host is known to have more issues. -/
def excused (r : Runner) (issues : List KnownIssue) : Outcome → Outcome
  | .failed (.refused error) =>
    match r.preparation.checks, r.preparation.first? issues with
    | true, some issue =>
      let host := r.preparation.host
      .skipped (host.name ++ " " ++ host.version ++ ": " ++ issue.reason ++ " (" ++
        error.message ++ ")")
    | _, _ => .failed (.refused error)
  | outcome => outcome

theorem checkSource_ne_refused {fileName : String} {source : List Char} (error : SyntaxError) :
    r.checkSource grammar checker e fileName source ≠ .error (.refused error) := by
  unfold checkSource
  rw [Ne, Except.bind_eq_error_iff]
  rintro (h | ⟨file, -, h⟩)
  · cases hread : SourceFile.read r.pipeline grammar fileName source with
    | error found =>
      rw [hread] at h
      cases h
    | ok file =>
      rw [hread] at h
      cases h
  · cases hcheck : e.check (checker.violations r.settings file) with
    | error found =>
      rw [hcheck] at h
      cases h
    | ok u =>
      rw [hcheck] at h
      cases h

theorem outcomeOf_withIssues (issues : List KnownIssue) (fileName : String) (source : List Char) :
    (r.withIssues issues).outcomeOf grammar checker e fileName
        ((r.preparation.withIssues issues).check grammar source) =
      r.excused issues
        (r.outcomeOf grammar checker e fileName (r.preparation.check grammar source)) := by
  rw [Preparation.check_withIssues]
  cases hcheck : r.preparation.check grammar source with
  | error error =>
    have hchecks := Preparation.checks_of_check hcheck
    simp only [outcomeOf, excused, hchecks]
    cases r.preparation.first? issues <;> rfl
  | ok prepared =>
    cases prepared with
    | skipped reason => rfl
    | ready ready =>
      -- only the grammar's refusal is excused, and that is no failure of a text that is ready
      have hsame : (r.withIssues issues).checkSource grammar checker e fileName ready =
          r.checkSource grammar checker e fileName ready := rfl
      simp only [outcomeOf, hsame]
      cases hsource : r.checkSource grammar checker e fileName ready with
      | ok u => rfl
      | error error =>
        cases error with
        | refused error => exact absurd hsource (checkSource_ne_refused error)
        | template error => rfl
        | build error => rfl
        | failure failure => rfl

theorem runScenario_withIssues (issues : List KnownIssue) (scenario : Scenario) :
    (r.withIssues issues).runScenario grammar checker e scenario =
      (r.runScenario grammar checker e scenario).map (r.excused issues) := by
  simp only [runScenario, Preparation.prepare, Option.map_map]
  cases dedent? scenario.text with
  | none => rfl
  | some source => exact congrArg some (outcomeOf_withIssues issues scenario.fileName source)

def excusedReport (r : Runner) (issues : List KnownIssue) (report : Report) : Report :=
  { report with outcome := r.excused issues report.outcome }

theorem report_withIssues (issues : List KnownIssue) (entry : Matrix.Entry) :
    (r.withIssues issues).report grammar checker e entry =
      (r.report grammar checker e entry).map (r.excusedReport issues) := by
  unfold report
  cases entry.scenario with
  | error error => rfl
  | ok scenario =>
    simp only [runScenario_withIssues, Option.map_map]
    rfl

theorem run_withIssues (issues : List KnownIssue) (matrix : Matrix) :
    (r.withIssues issues).run grammar checker e matrix =
      (r.run grammar checker e matrix).map (List.map (r.excusedReport issues)) :=
  Option.mapM_map (report_withIssues issues) matrix.entries

theorem read_of_passes {scenario : Scenario} (hg : grammar.AdmitsFaults)
    (h : r.Passes grammar checker e scenario) :
    ∃ source tokens, dedent? scenario.text = some source ∧ (grammar source).IsFaultless ∧
      tokenize source = .ok tokens := by
  obtain ⟨ready, file, hprepare, hread, -⟩ := passes_iff.mp h
  obtain ⟨source, hdedent, hcheck⟩ := Option.map_eq_some_iff.mp hprepare
  cases Preparation.eq_of_check hcheck
  obtain ⟨tree, hbuild, hrest⟩ := Except.bind_eq_ok_iff.mp hread
  obtain ⟨tokens, htokens, -⟩ := Except.bind_eq_ok_iff.mp hrest
  have hfaultless := hg.isFaultless (Pipeline.build_eq_ok_iff.1 hbuild).1
  exact ⟨ready, tokens, hdedent, hfaultless, Except.mapError_eq_ok_iff.mp htokens⟩

/-- A text that passes has been read, and known issues only excuse texts that a grammar refuses. -/
theorem knownIssues_only_excuse (r : Runner) (grammar : Grammar) (checker : Checker)
    (e : Expectation) :
    (grammar.AdmitsFaults → ∀ scenario, r.Passes grammar checker e scenario →
      ∃ source tokens, dedent? scenario.text = some source ∧ (grammar source).IsFaultless ∧
        tokenize source = .ok tokens) ∧
    ∀ issues,
      (∀ scenario, (r.withIssues issues).runScenario grammar checker e scenario =
        (r.runScenario grammar checker e scenario).map (r.excused issues)) ∧
      ∀ matrix, (r.withIssues issues).run grammar checker e matrix =
        (r.run grammar checker e matrix).map (List.map (r.excusedReport issues)) :=
  ⟨fun hg _ => read_of_passes hg,
    fun issues => ⟨runScenario_withIssues issues, run_withIssues issues⟩⟩

open Expectation in
theorem isFaultless_fewTexts :
    ∀ source ∈ [[], "x = 1\n".toList, "x = 1. + 0XFF\n".toList], (fewTexts source).IsFaultless := by
  unfold ParseTree.IsFaultless
  decide +kernel

open Expectation in
theorem admitsFaults_fewTexts : fewTexts.AdmitsFaults := by
  intro source info hinfo hfault
  by_cases hs : source ∈ [[], "x = 1\n".toList, "x = 1. + 0XFF\n".toList]
  · obtain ⟨he, hm⟩ := isFaultless_fewTexts source hs info hinfo
    simp [he, hm] at hfault
  · simp only [List.mem_cons, List.not_mem_nil, or_false, not_or] at hs
    obtain ⟨hempty, hassignment, hsum⟩ := hs
    simp only [fewTexts, if_neg hempty, if_neg hassignment, if_neg hsum]
    rfl

open Expectation in
theorem knownIssues_only_excuse_of_bracket :
    let bracket : Scenario := ⟨.regular, "module.py", "  )\n".toList⟩
    let issues : List KnownIssue := [⟨"0.24", "old"⟩, ⟨"0.25", "brackets"⟩, ⟨"0.25", "later"⟩]
    (∃ source tokens, dedent? "  x = 1\n".toList = some source ∧
      (fewTexts source).IsFaultless ∧ tokenize source = .ok tokens) ∧
    plainRunner.runScenario fewTexts Checker.NumberSpelling.checker {} bracket =
      some (.failed (.refused ⟨⟨1, 0⟩, .unexpectedInput⟩)) ∧
    (plainRunner.withIssues issues).runScenario fewTexts Checker.NumberSpelling.checker {} bracket =
      some (.skipped "python 0.25: brackets (invalid syntax at 1:0: unexpected input)") := by
  intro bracket issues
  have hpasses : plainRunner.Passes fewTexts Checker.NumberSpelling.checker {}
      ⟨.regular, "module.py", "  x = 1\n".toList⟩ := rfl
  have hrefused : plainRunner.runScenario fewTexts Checker.NumberSpelling.checker {} bracket =
      some (.failed (.refused ⟨⟨1, 0⟩, .unexpectedInput⟩)) := rfl
  obtain ⟨hread, hexcuse⟩ :=
    knownIssues_only_excuse plainRunner fewTexts Checker.NumberSpelling.checker {}
  refine ⟨hread admitsFaults_fewTexts _ hpasses, hrefused, ?_⟩
  rw [(hexcuse issues).1 bracket, hrefused]
  rfl

end Runner

end StyleCheck
