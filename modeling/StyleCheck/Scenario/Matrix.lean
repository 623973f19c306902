import StyleCheck.Scenario.Mode
import StyleCheck.Scenario.Template

namespace StyleCheck

structure Scenario where
  mode : Mode
  fileName : String
  text : List Char
deriving DecidableEq, Repr

structure Matrix where
  templates : List (String × List Char)
  values : List (String × Substitution) := []
  modes : List Mode := [.regular]
  fileName : String := "module.py"

namespace Matrix

structure Entry where
  id : String
  scenario : Except Template.Error Scenario

def entryId (name label : String) (mode : Mode) : String :=
  "-".intercalate ([name, label, mode.name].filter (· != ""))

def valueSets (m : Matrix) : List (String × Substitution) :=
  if m.values.isEmpty then [("", .empty)] else m.values

def entry (m : Matrix) (template : String × List Char) (values : String × Substitution)
    (mode : Mode) : Entry :=
  ⟨entryId template.1 values.1 mode,
    (Template.render values.2 template.2).map fun text => ⟨mode, m.fileName, mode.apply text⟩⟩

def entries (m : Matrix) : List Entry :=
  m.templates.flatMap fun template =>
    m.valueSets.flatMap fun values =>
      m.modes.map fun mode => m.entry template values mode

def expand (m : Matrix) : Except Template.Error (List (String × Scenario)) :=
  m.entries.mapM fun entry => entry.scenario.map fun scenario => (entry.id, scenario)

end Matrix

end StyleCheck
