import StyleCheck.Text.Characters
import StyleCheck.Text.Lines

namespace StyleCheck

inductive Mode
  | regular
  | async
deriving DecidableEq, Repr

namespace Mode

open Text

def name : Mode → String
  | .regular => "regular"
  | .async => "async"

def keywords : List (List Char) :=
  [['d', 'e', 'f'], ['w', 'i', 't', 'h'], ['f', 'o', 'r']]

def startsWithKeyword (body : List Char) : Bool :=
  keywords.any fun keyword =>
    (keyword ++ [' ']).isPrefixOf body || (keyword ++ ['\t']).isPrefixOf body

inductive Quoting
  | outside
  | inside (quote : Char)
  | escaped (quote : Char)
deriving DecidableEq, Repr

def depthFrom : Quoting → Nat → List Char → Nat
  | _, depth, [] => depth
  | .escaped quote, depth, _ :: cs => depthFrom (.inside quote) depth cs
  | .inside quote, depth, c :: cs =>
    if c = '\\' then depthFrom (.escaped quote) depth cs
    else if c = quote then depthFrom .outside depth cs
    else depthFrom (.inside quote) depth cs
  | .outside, depth, c :: cs =>
    if c = '\'' ∨ c = '"' then depthFrom (.inside c) depth cs
    else if c = '#' then depth
    else if c ∈ ['(', '[', '{'] then depthFrom .outside (depth + 1) cs
    else if c ∈ [')', ']', '}'] then depthFrom .outside (depth - 1) cs
    else depthFrom .outside depth cs

def bracketDepth (depth : Nat) (line : List Char) : Nat :=
  depthFrom .outside depth line

def asyncWord : List Char :=
  ['a', 's', 'y', 'n', 'c', ' ']

def asyncLine (depth : Nat) (line : List Char) : List Char :=
  let body := trimStart line
  if depth = 0 ∧ startsWithKeyword body then line.takeWhile isBlank ++ asyncWord ++ body else line

def asyncLines (depth : Nat) : List (List Char) → List (List Char)
  | [] => []
  | line :: rest => asyncLine depth line :: asyncLines (bracketDepth depth line) rest

def apply : Mode → List Char → List Char
  | .regular, source => source
  | .async, source => (asyncLines 0 (lines source)).flatten

end Mode

end StyleCheck
