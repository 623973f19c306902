import StyleCheck.Checker.Basic
import StyleCheck.Host
import StyleCheck.Scenario.Expectation
import StyleCheck.Scenario.Matrix

namespace StyleCheck

namespace Scenario

inductive Error
  | template (error : Template.Error)
  | refused (error : SyntaxError)
  | build (error : BuildError)
  | failure (failure : Failure)

def Error.message : Error → String
  | .template error => error.message
  | .refused error => "source does not compile: " ++ error.message
  | .build error => error.message
  | .failure f => f.text

inductive Outcome
  | passed
  | skipped (reason : String)
  | failed (error : Error)

structure Report where
  id : String
  outcome : Outcome

end Scenario

structure Runner where
  settings : Settings
  preparation : Preparation := {}
  pipeline : Pipeline := .standard

namespace Runner

open Scenario

def new (settings : Settings) (preparation : Preparation) (pipeline : Pipeline) :
    Except Settings.Conflict Runner :=
  match settings.conflict? with
  | some conflict => .error conflict
  | none => .ok ⟨settings, preparation, pipeline⟩

def checkSource (r : Runner) (grammar : Grammar) (checker : Checker) (expectation : Expectation)
    (fileName : String) (source : List Char) : Except Error Unit := do
  let file ← (SourceFile.read r.pipeline grammar fileName source).mapError .build
  (expectation.check (checker.violations r.settings file)).mapError .failure

def outcomeOf (r : Runner) (grammar : Grammar) (checker : Checker) (expectation : Expectation)
    (fileName : String) : Except SyntaxError Prepared → Outcome
  | .error error => .failed (.refused error)
  | .ok (.skipped reason) => .skipped reason
  | .ok (.ready source) =>
    match r.checkSource grammar checker expectation fileName source with
    | .error error => .failed error
    | .ok () => .passed

def runScenario (r : Runner) (grammar : Grammar) (checker : Checker) (expectation : Expectation)
    (scenario : Scenario) : Option Outcome :=
  (r.preparation.prepare grammar scenario.text).map
    (r.outcomeOf grammar checker expectation scenario.fileName)

def report (r : Runner) (grammar : Grammar) (checker : Checker) (expectation : Expectation)
    (entry : Matrix.Entry) : Option Report :=
  match entry.scenario with
  | .error error => some ⟨entry.id, .failed (.template error)⟩
  | .ok scenario =>
    (r.runScenario grammar checker expectation scenario).map fun outcome => ⟨entry.id, outcome⟩

def run (r : Runner) (grammar : Grammar) (checker : Checker) (expectation : Expectation)
    (matrix : Matrix) : Option (List Report) :=
  matrix.entries.mapM (r.report grammar checker expectation)

end Runner

namespace Scenario

def Report.isPassed (report : Report) : Bool :=
  match report.outcome with
  | .passed => true
  | _ => false

def Report.skip? (report : Report) : Option (String × String) :=
  match report.outcome with
  | .skipped reason => some (report.id, reason)
  | _ => none

def Report.failure? (report : Report) : Option (String × Error) :=
  match report.outcome with
  | .failed error => some (report.id, error)
  | _ => none

def passedCount (reports : List Report) : Nat :=
  reports.countP Report.isPassed

def skips (reports : List Report) : List (String × String) :=
  reports.filterMap Report.skip?

def failures (reports : List Report) : List (String × Error) :=
  reports.filterMap Report.failure?

structure RunFailure where
  total : Nat
  failures : List (String × Error)

def RunFailure.message (f : RunFailure) : String :=
  toString f.failures.length ++ " of " ++ toString f.total ++ " scenarios failed:" ++
    String.join (f.failures.map fun failure => "\n  " ++ failure.1 ++ ": " ++ failure.2.message)

def result (reports : List Report) : Except RunFailure (List Report) :=
  if (failures reports).isEmpty then .ok reports
  else .error ⟨reports.length, failures reports⟩

end Scenario

end StyleCheck
