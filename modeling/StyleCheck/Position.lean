import StyleCheck.Text.Quoted

namespace StyleCheck

/-- Lines count from one and columns from zero, in bytes. Both stand for numbers of 32 bits, which
are the same for all texts of less than `2 ^ 32` bytes. -/
structure Position where
  line : Nat
  column : Nat
deriving DecidableEq, Repr

/-- A place as a grammar counts it: rows and columns from zero. -/
structure Point where
  row : Nat
  column : Nat
deriving DecidableEq, Repr

def Position.ofPoint (point : Point) : Position :=
  ⟨point.row + 1, point.column⟩

theorem Position.ofPoint_line_pos (point : Point) : 0 < (ofPoint point).line :=
  Nat.succ_pos point.row

def Position.ble (a b : Position) : Bool :=
  a.line < b.line || (a.line == b.line && a.column ≤ b.column)

theorem Position.ble_iff {a b : Position} :
    a.ble b = true ↔ a.line < b.line ∨ (a.line = b.line ∧ a.column ≤ b.column) := by
  simp [Position.ble]

inductive SyntaxFault
  | missing (kind : String)
  | unexpectedInput
  | strayBackslash
  | unmatchedDedent
  | unterminatedString
  | invalidCharacter (c : Char)
  | endInString
  | endInStatement
deriving DecidableEq, Repr

def SyntaxFault.message : SyntaxFault → String
  | .missing kind => "missing `" ++ kind ++ "`"
  | .unexpectedInput => "unexpected input"
  | .strayBackslash => "unexpected character after line continuation character"
  | .unmatchedDedent => "unindent does not match any outer indentation level"
  | .unterminatedString => "unterminated string literal"
  | .invalidCharacter c => "invalid character " ++ Text.quoteChar c
  | .endInString => "EOF in multi-line string"
  | .endInStatement => "EOF in multi-line statement"

structure SyntaxError where
  position : Position
  fault : SyntaxFault
deriving DecidableEq, Repr

def SyntaxError.message (e : SyntaxError) : String :=
  "invalid syntax at " ++ toString e.position.line ++ ":" ++ toString e.position.column ++ ": " ++
    e.fault.message

end StyleCheck
