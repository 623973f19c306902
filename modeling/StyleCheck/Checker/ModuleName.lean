import StyleCheck.Checker.Basic
import StyleCheck.Text.Characters

namespace StyleCheck.FileName

def parts : List Char → List (List Char)
  | [] => [[]]
  | c :: cs =>
    if c = '/' then [] :: parts cs
    else match parts cs with
      | [] => [[c]]
      | part :: rest => (c :: part) :: rest

def file? (path : List Char) : Option (List Char) :=
  match ((parts path).filter fun part => part != [] && part != ['.']).getLast? with
  | none => none
  | some part => if part = ['.', '.'] then none else some part

def stem (file : List Char) : List Char :=
  if '.' ∈ file then
    let extension := (file.reverse.takeWhile (· != '.')).length
    let before := file.take (file.length - extension - 1)
    if before = [] then file else before
  else file

def stem? (path : List Char) : Option (List Char) :=
  (file? path).map stem

end StyleCheck.FileName

namespace StyleCheck.Checker.ModuleName

open Rule.Catalogue

def isWordChar (c : Char) : Bool :=
  c.isLower || c.isDigit || c == '_'

def matchesPattern (stem : List Char) : Bool :=
  match (if stem.head? = some '_' then stem.drop 1 else stem) with
  | [] => false
  | c :: cs => c.isLower && cs.all isWordChar

def hasUnderscoredNumber : List Char → Bool
  | a :: b :: c :: cs =>
    (a.isAlpha && b == '_' && Text.isDecimalDigit c) || hasUnderscoredNumber (b :: c :: cs)
  | _ => false

def hasConsecutiveUnderscores : List Char → Bool
  | a :: b :: cs => (a == '_' && b == '_') || hasConsecutiveUnderscores (b :: cs)
  | _ => false

def trimUnderscores (cs : List Char) : List Char :=
  ((cs.dropWhile (· == '_')).reverse.dropWhile (· == '_')).reverse

def isMagic (stem : List Char) : Bool :=
  4 < stem.length && ['_', '_'].isPrefixOf stem && ['_', '_'].isSuffixOf stem

def magicNames : List String :=
  ["__init__", "__main__"]

def report (rule : Rule) (stem : List Char) : Violation :=
  if rule.hasPlaceholder then (Violation.atFile rule).withText (String.ofList stem)
  else .atFile rule

def ordinaryViolations (settings : Settings) (stem : List Char) : List Violation :=
  let trimmed := trimUnderscores stem
  (if trimmed.length < settings.minNameLength then [report tooShortName stem] else []) ++
  (if settings.maxNameLength < stem.length then
    [((Violation.atFile tooLongName).withText (String.ofList stem)).withBaseline
      (toString settings.maxNameLength)]
    else []) ++
  (if matchesPattern stem then [] else [report wrongModuleNamePattern stem]) ++
  (if hasConsecutiveUnderscores trimmed then [report consecutiveUnderscoresInName stem] else []) ++
  (if hasUnderscoredNumber stem then [report underscoredNumberName stem] else [])

def stemViolations (settings : Settings) (stem : List Char) : List Violation :=
  if String.ofList stem ∈ settings.forbiddenModuleNames then [report wrongModuleName stem]
  else if isMagic stem then
    if String.ofList stem ∈ magicNames then [] else [report wrongModuleMagicName stem]
  else ordinaryViolations settings stem

def checker : Checker where
  name := "module_name"
  input := .fileName
  violations settings file :=
    match FileName.stem? file.name.toList with
    | none => []
    | some stem => stemViolations settings stem

end StyleCheck.Checker.ModuleName
