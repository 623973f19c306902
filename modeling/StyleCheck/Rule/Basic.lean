import StyleCheck.Text.Occurrence

namespace StyleCheck

inductive Target
  | node
  | token
  | file
deriving DecidableEq, Repr

structure Rule where
  name : String
  group : String
  code : Nat
  template : String
  target : Target
  previousCodes : List Nat
  docs : String
deriving Repr

namespace Rule

/-- Rules are the same when they have the same code. -/
instance : BEq Rule := ⟨fun a b => a.code == b.code⟩

theorem beq_iff {a b : Rule} : (a == b) = true ↔ a.code = b.code :=
  beq_iff_eq (a := a.code)

instance : EquivBEq Rule where
  symm h := beq_iff.2 (beq_iff.1 h).symm
  trans h₁ h₂ := beq_iff.2 ((beq_iff.1 h₁).trans (beq_iff.1 h₂))
  rfl := beq_iff.2 rfl

def qualifiedName (rule : Rule) : String :=
  rule.group ++ "." ++ rule.name

def padCode (code : Nat) : String :=
  let shown := Nat.toDigits 10 code
  String.ofList (List.replicate (3 - shown.length) '0' ++ shown)

def fullCode (rule : Rule) : String :=
  "SPY" ++ padCode rule.code

def placeholder : List Char :=
  ['{', '0', '}']

def hasPlaceholder (rule : Rule) : Bool :=
  (':' :: ' ' :: placeholder).isSuffixOf rule.template.toList

end Rule

def renderTemplate (template text : String) : String :=
  String.ofList (Text.replace Rule.placeholder text.toList template.toList)

structure RuleModule where
  index : Nat
  name : String
  docs : String
deriving DecidableEq, Repr

namespace RuleModule

def greatestCode : Nat := 65535

def greatestIndex : Nat := 654

def bandStart (m : RuleModule) : Nat :=
  min (m.index * 100) greatestCode

def bandEnd (m : RuleModule) : Nat :=
  min (m.bandStart + 99) greatestCode

theorem band_of_le {m : RuleModule} (h : m.index ≤ greatestIndex) :
    m.bandStart = m.index * 100 ∧ m.bandEnd = m.index * 100 + 99 := by
  simp only [bandStart, bandEnd, greatestCode, greatestIndex] at *
  omega

end RuleModule

end StyleCheck
