import StyleCheck.Text.Quoted

namespace StyleCheck

structure Substitution where
  positional : List (List Char)
  named : List (List Char × List Char)
deriving DecidableEq, Repr

namespace Substitution

def empty : Substitution :=
  ⟨[], []⟩

def place? (key : List Char) : Option Nat :=
  let digits := if key.head? = some '+' then key.drop 1 else key
  if digits = [] ∨ !digits.all Char.isDigit then none
  else
    let n := digits.foldl (fun n c => n * 10 + (c.toNat - '0'.toNat)) 0
    if n < UInt64.size then some n else none

def value? (values : Substitution) (key : List Char) : Option (List Char) :=
  match place? key with
  | some n => values.positional[n]?
  | none => values.named.reverse.lookup key

end Substitution

namespace Template

inductive Piece
  | char (c : Char)
  | placeholder (key : List Char)
deriving DecidableEq, Repr

inductive Fault
  | unmatchedClose
  | unclosedOpen
  | noValue (key : List Char)
deriving DecidableEq, Repr

def Fault.reason : Fault → String
  | .unmatchedClose => "unmatched `\x7d`"
  | .unclosedOpen => "unclosed `\x7b`"
  | .noValue key => "no value for placeholder `\x7b" ++ String.ofList key ++ "\x7d`"

structure Error where
  template : List Char
  fault : Fault
deriving DecidableEq, Repr

def Error.message (e : Error) : String :=
  "template " ++ Text.quote (String.ofList e.template) ++ ": " ++ e.fault.reason

inductive Reading
  | text
  | openBrace
  | closeBrace
  | key (read : List Char)
deriving DecidableEq, Repr

def piecesFrom : Reading → List Char → List Piece × Option Fault
  | .text, [] => ([], none)
  | .closeBrace, [] => ([], some .unmatchedClose)
  | .openBrace, [] => ([], some .unclosedOpen)
  | .key _, [] => ([], some .unclosedOpen)
  | .text, c :: cs =>
    if c = '{' then piecesFrom .openBrace cs
    else if c = '}' then piecesFrom .closeBrace cs
    else (piecesFrom .text cs).map (.char c :: ·) id
  | .closeBrace, c :: cs =>
    if c = '}' then (piecesFrom .text cs).map (.char c :: ·) id else ([], some .unmatchedClose)
  | .openBrace, c :: cs =>
    if c = '{' then (piecesFrom .text cs).map (.char c :: ·) id
    else if c = '}' then (piecesFrom .text cs).map (.placeholder [] :: ·) id
    else piecesFrom (.key [c]) cs
  | .key read, c :: cs =>
    if c = '}' then (piecesFrom .text cs).map (.placeholder read :: ·) id
    else piecesFrom (.key (read ++ [c])) cs

def pieces (template : List Char) : List Piece × Option Fault :=
  piecesFrom .text template

def fillPiece (values : Substitution) : Piece → Except Fault (List Char)
  | .char c => .ok [c]
  | .placeholder key =>
    match values.value? key with
    | some value => .ok value
    | none => .error (.noValue key)

def fill (values : Substitution) : List Piece → Except Fault (List Char)
  | [] => .ok []
  | piece :: rest => do
    let value ← fillPiece values piece
    let others ← fill values rest
    .ok (value ++ others)

def render (values : Substitution) (template : List Char) : Except Error (List Char) :=
  let (pieces, fault) := pieces template
  match fill values pieces, fault with
  | .error fault, _ => .error ⟨template, fault⟩
  | .ok _, some fault => .error ⟨template, fault⟩
  | .ok text, none => .ok text

end Template

end StyleCheck
