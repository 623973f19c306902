import StyleCheck.Rule.Catalogue

namespace StyleCheck

structure Registry where
  modules : List RuleModule
  rules : List Rule

namespace Registry

inductive Error
  | duplicateCode (code : Nat) (name existing : String)
  | outOfBand (code : Nat) (name : String) (owner : RuleModule)
  | unknownModule (name group : String)
  | duplicateModule (name : String) (index : Nat)
  | indexOutOfRange (name : String) (index : Nat)
deriving DecidableEq, Repr

def Error.message : Error → String
  | .duplicateCode code name existing =>
    "code " ++ toString code ++ " of " ++ name ++ " is already used by " ++ existing
  | .outOfBand code name owner =>
    "code " ++ toString code ++ " of " ++ name ++ " is outside the band " ++
      toString owner.bandStart ++ "..=" ++ toString owner.bandEnd ++ " of module " ++ owner.name
  | .unknownModule name group => name ++ " belongs to unregistered module " ++ group
  | .duplicateModule name index =>
    "module " ++ name ++ " (index " ++ toString index ++ ") is already registered"
  | .indexOutOfRange name index =>
    "module " ++ name ++ " has index " ++ toString index ++ ", above the highest band index " ++
      toString RuleModule.greatestIndex

def empty : Registry :=
  ⟨[], []⟩

def module? (r : Registry) (name : String) : Option RuleModule :=
  r.modules.find? (·.name == name)

def rulesIn (r : Registry) (group : String) : List Rule :=
  r.rules.filter (·.group == group)

def byCode? (r : Registry) (code : Nat) : Option Rule :=
  r.rules.find? (·.code == code)

def byName? (r : Registry) (name : String) : Option Rule :=
  r.rules.find? (·.name == name)

def sortCodes (codes : List Nat) : List Nat :=
  codes.mergeSort (· ≤ ·)

def codes (r : Registry) : List Nat :=
  sortCodes (r.rules.map (·.code))

def addModule (r : Registry) (m : RuleModule) : Except Error Unit × Registry :=
  if RuleModule.greatestIndex < m.index then (.error (.indexOutOfRange m.name m.index), r)
  else if r.modules.any fun other => other.name == m.name || other.index == m.index then
    (.error (.duplicateModule m.name m.index), r)
  else (.ok (), { r with modules := r.modules ++ [m] })

theorem addModule_cases (r : Registry) (m : RuleModule) :
    (∃ error, r.addModule m = (.error error, r)) ∨
      m.index ≤ RuleModule.greatestIndex ∧
        (∀ other ∈ r.modules, other.name ≠ m.name ∧ other.index ≠ m.index) ∧
        r.addModule m = (.ok (), { r with modules := r.modules ++ [m] }) := by
  unfold addModule
  split
  · exact .inl ⟨_, rfl⟩
  · rename_i hindex
    split
    · exact .inl ⟨_, rfl⟩
    · rename_i hnew
      simp only [Bool.not_eq_true, List.any_eq_false, Bool.or_eq_true, beq_iff_eq, not_or] at hnew
      exact .inr ⟨Nat.le_of_not_lt hindex, fun other hm => hnew other hm, rfl⟩

def addRule (r : Registry) (rule : Rule) : Except Error Unit × Registry :=
  match r.module? rule.group with
  | none => (.error (.unknownModule rule.name rule.group), r)
  | some owner =>
    if rule.code < owner.bandStart ∨ owner.bandEnd < rule.code then
      (.error (.outOfBand rule.code rule.name owner), r)
    else
      match r.byCode? rule.code with
      | some existing => (.error (.duplicateCode rule.code rule.name existing.name), r)
      | none => (.ok (), { r with rules := r.rules ++ [rule] })

theorem addRule_cases (r : Registry) (rule : Rule) :
    (∃ error, r.addRule rule = (.error error, r)) ∨
      (∃ owner, r.module? rule.group = some owner ∧
        owner.bandStart ≤ rule.code ∧ rule.code ≤ owner.bandEnd) ∧
        r.byCode? rule.code = none ∧
        r.addRule rule = (.ok (), { r with rules := r.rules ++ [rule] }) := by
  unfold addRule
  split
  · exact .inl ⟨_, rfl⟩
  · rename_i owner howner
    split
    · exact .inl ⟨_, rfl⟩
    · rename_i hband
      split
      · exact .inl ⟨_, rfl⟩
      · rename_i hcode
        exact .inr ⟨⟨owner, howner, by omega, by omega⟩, hcode, rfl⟩

inductive Registration
  | group (m : RuleModule)
  | rule (rule : Rule)

def register (r : Registry) : Registration → Except Error Unit × Registry
  | .group m => r.addModule m
  | .rule rule => r.addRule rule

def run (registrations : List Registration) : Registry :=
  registrations.foldl (fun r registration => (r.register registration).2) empty

def builtinRegistrations : List Registration :=
  Rule.Catalogue.modules.flatMap fun (m, rules) => .group m :: rules.map .rule

def builtin : Registry :=
  run builtinRegistrations

end Registry

end StyleCheck
