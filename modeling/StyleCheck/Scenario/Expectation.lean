import StyleCheck.Scenario.Failure

namespace StyleCheck

structure TextExpectation where
  text : String := ""
  baseline : Option String := none
  /-- Whether there may be more violations than that one. -/
  multiple : Bool := false
deriving DecidableEq, Repr

structure Expectation where
  rules : List Rule := []
  ignored : List Rule := []
  text : Option TextExpectation := none

namespace Expectation

def ofRules (rules : List Rule) : Expectation :=
  { rules := rules }

def ignoring (e : Expectation) (rules : List Rule) : Expectation :=
  { e with ignored := e.ignored ++ rules }

def changeText (e : Expectation) (change : TextExpectation → TextExpectation) : Expectation :=
  { e with text := some (change (e.text.getD {})) }

def withText (e : Expectation) (text : String) : Expectation :=
  e.changeText fun t => { t with text := text }

def withBaseline (e : Expectation) (baseline : String) : Expectation :=
  e.changeText fun t => { t with baseline := some baseline }

def allowingMore (e : Expectation) : Expectation :=
  e.changeText fun t => { t with multiple := true }

end Expectation

namespace Violation

def isIgnored (ignored : List Rule) (v : Violation) : Bool :=
  ignored.contains v.rule

def isUnanchored (v : Violation) : Bool :=
  v.rule.target != .file && (v.anchor.isNone || v.location == ⟨0, 0⟩)

end Violation

def findRuleFailure (index : Nat) : List Violation → List Rule → Except Failure Unit
  | v :: violations, rule :: rules =>
    if v.rule == rule then findRuleFailure (index + 1) violations rules
    else .error (.rule index rule.name v.record)
  | _, _ => .ok ()

def findUnanchored (index : Nat) : List Violation → Except Failure Unit
  | [] => .ok ()
  | v :: violations =>
    if v.isUnanchored then .error (.unanchored index v.record)
    else findUnanchored (index + 1) violations

def checkRules (violations : List Violation) (expected ignored : List Rule) :
    Except Failure Unit := do
  let actual := violations.filter (!·.isIgnored ignored)
  if actual.length ≠ expected.length then
    .error (.count (expected.map (·.name)) (actual.map (·.record)))
  else
    findRuleFailure 0 actual expected
    findUnanchored 0 actual

def checkText (violations : List Violation) (expected : TextExpectation) : Except Failure Unit :=
  if !expected.multiple ∧ violations.length ≠ 1 then
    .error (.single (violations.map (·.record)))
  else match violations with
    | [] => .error .empty
    | first :: _ =>
      if first.rule.hasPlaceholder then
        let rebuilt :=
          { first with text := some expected.text, baseline := expected.baseline }
        if rebuilt.message = first.message then .ok ()
        else .error (.message rebuilt.message first.record)
      else .error (.noPlaceholder first.rule.name first.rule.template)

def Expectation.check (e : Expectation) (violations : List Violation) : Except Failure Unit := do
  checkRules violations e.rules e.ignored
  match e.text with
  | none => .ok ()
  | some text => checkText violations text

end StyleCheck
