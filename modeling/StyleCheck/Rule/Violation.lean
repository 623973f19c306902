import StyleCheck.Json
import StyleCheck.Rule.Basic
import StyleCheck.SyntaxTree.Basic
import StyleCheck.Token.Basic

namespace StyleCheck

inductive Anchor
  | node (id : Nat) (kind : String) (position : Position)
  | token (index : Nat) (text : String) (position : Position)
deriving DecidableEq, Repr

namespace Anchor

def ofNode (node : Node) : Anchor :=
  .node node.id node.kind node.start

def ofToken (index : Nat) (token : Token) : Anchor :=
  .token index (String.ofList token.text) token.start

def position : Anchor → Position
  | .node _ _ position => position
  | .token _ _ position => position

end Anchor

structure Violation where
  rule : Rule
  anchor : Option Anchor
  text : Option String := none
  baseline : Option String := none
deriving BEq, Repr

namespace Violation

def location (v : Violation) : Position :=
  (v.anchor.map Anchor.position).getD ⟨0, 0⟩

theorem location_of_anchor {v : Violation} {anchor : Anchor} (h : v.anchor = some anchor) :
    v.location = anchor.position := by
  rw [location, h]
  rfl

theorem location_of_unanchored {v : Violation} (h : v.anchor = none) : v.location = ⟨0, 0⟩ := by
  rw [location, h]
  rfl

def message (v : Violation) : String :=
  renderTemplate v.rule.template (v.text.getD "") ++
    match v.baseline with
    | some baseline => " > " ++ baseline
    | none => ""

def reportLine (v : Violation) : String :=
  toString v.location.line ++ ":" ++ toString v.location.column ++ ": " ++ v.rule.fullCode ++ " " ++
    v.message

end Violation

structure Record where
  code : String
  name : String
  line : Nat
  column : Nat
  message : String
deriving DecidableEq, Repr

def Violation.record (v : Violation) : Record :=
  ⟨v.rule.fullCode, v.rule.name, v.location.line, v.location.column, v.message⟩

def Record.toJson (r : Record) : Json :=
  .obj [("code", .str r.code), ("name", .str r.name), ("line", .num r.line),
    ("column", .num r.column), ("message", .str r.message)]

def recordsJson (records : List Record) : Json :=
  .arr (records.map Record.toJson)

end StyleCheck
