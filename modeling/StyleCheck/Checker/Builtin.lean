import StyleCheck.Checker.ModuleName
import StyleCheck.Token.Literal

namespace StyleCheck.Checker.Layout

def bracketedKinds : List String :=
  ["list", "set", "dictionary", "argument_list", "parameters"]

def isBracketed (node : Node) : Bool :=
  node.kind ∈ bracketedKinds || (node.kind == "tuple" && node.grammarKind == "tuple")

def eachBelow (line : Nat) : List Node → Bool
  | [] => true
  | node :: rest => line < node.start.line && eachBelow node.stop.line rest

def isConsistent (opening : Nat) : List Node → Bool
  | [] => true
  | first :: rest =>
    if first.start.line = opening then rest.all (·.start.line == opening)
    else eachBelow first.stop.line rest

def isBad (tree : SyntaxTree) (node : Node) : Bool :=
  isBracketed node && !isConsistent node.start.line (tree.elements node)

def checker : Checker where
  name := "parameters_indentation"
  input := .tree
  violations _ file :=
    (file.tree.nodes.toList.filter (isBad file.tree)).map
      (.atNode Rule.Catalogue.parametersIndentation)

end StyleCheck.Checker.Layout

namespace StyleCheck.Checker.Unpacking

def ownerKinds : List String :=
  ["assignment", "for_statement", "for_in_clause"]

def targetKinds : List String :=
  ["tuple", "tuple_pattern", "list_pattern"]

def isTarget (node : Node) : Bool :=
  node.kind ∈ targetKinds

def aliasTarget? (tree : SyntaxTree) (aliased : Node) : Option Node :=
  if isTarget aliased then some aliased
  else match tree.elements aliased with
    | [only] => if isTarget only then some only else none
    | _ => none

def isWithAlias (tree : SyntaxTree) (node : Node) : Bool :=
  node.kind == "as_pattern" && (tree.parent? node).any (·.kind == "with_item")

def target? (tree : SyntaxTree) (node : Node) : Option Node :=
  if node.kind ∈ ownerKinds then (tree.child? node "left").filter isTarget
  else if isWithAlias tree node then (tree.child? node "alias").bind (aliasTarget? tree)
  else none

def violation? (limit : Nat) (tree : SyntaxTree) (node : Node) : Option Violation :=
  (target? tree node).bind fun target =>
    let length := (tree.elements target).length
    if limit < length then
      some (((Violation.atNode Rule.Catalogue.tooLongTupleUnpack target).withText
        (toString length)).withBaseline (toString limit))
    else none

def checker : Checker where
  name := "tuple_unpack"
  input := .tree
  violations settings file :=
    file.tree.nodes.toList.filterMap (violation? settings.maxTupleUnpackLength file.tree)

end StyleCheck.Checker.Unpacking

namespace StyleCheck.Checker.NumberSpelling

def isPartialFloat (text : List Char) : Bool :=
  text.head? == some '.' || text.getLast? == some '.'

def hasUppercaseBase : List Char → Bool
  | a :: b :: _ => a == '0' && (b == 'X' || b == 'O' || b == 'B')
  | _ => false

def hasBase : List Char → Bool
  | a :: b :: _ :: _ => a == '0' && Token.isBaseLetter b
  | _ => false

def hasBadSuffix (text : List Char) : Bool :=
  hasUppercaseBase text || (!hasBase text && text.any fun c => c == 'E' || c == 'J')

def tokenViolations (index : Nat) (token : Token) : List Violation :=
  let report rule := (Violation.atToken rule index token).withText (String.ofList token.text)
  if token.kind = .number then
    (if isPartialFloat token.text then [report Rule.Catalogue.partialFloat] else []) ++
    (if hasBadSuffix token.text then [report Rule.Catalogue.badNumberSuffix] else [])
  else []

theorem tokenViolations_sublist (index : Nat) (token : Token) :
    (tokenViolations index token).Sublist
      [(Violation.atToken Rule.Catalogue.partialFloat index token).withText
          (String.ofList token.text),
        (Violation.atToken Rule.Catalogue.badNumberSuffix index token).withText
          (String.ofList token.text)] := by
  unfold tokenViolations
  split
  · split <;> split <;> simp
  · exact List.nil_sublist _

theorem eq_of_mem_tokenViolations {index : Nat} {token : Token} {v : Violation}
    (h : v ∈ tokenViolations index token) :
    v = (Violation.atToken Rule.Catalogue.partialFloat index token).withText
        (String.ofList token.text) ∨
      v = (Violation.atToken Rule.Catalogue.badNumberSuffix index token).withText
        (String.ofList token.text) := by
  simpa using (tokenViolations_sublist index token).subset h

def checker : Checker where
  name := "number_tokens"
  input := .tokens
  violations _ file := file.tokens.zipIdx.flatMap fun (token, index) => tokenViolations index token

end StyleCheck.Checker.NumberSpelling

namespace StyleCheck.Checker.Comments

open Text

def dropPrefix? : List Char → List Char → Option (List Char)
  | [], cs => some cs
  | _ :: _, [] => none
  | p :: ps, c :: cs => if p = c then dropPrefix? ps cs else none

def body (text : List Char) : List Char :=
  trimStart (text.drop 1)

def isBareNoqa (text : List Char) : Bool :=
  let body := body text
  if (body.take 4).map Char.toLower = ['n', 'o', 'q', 'a'] then
    match trimStart (body.drop 4) with
    | ':' :: rest => rest.all isBlank
    | rest => rest.isEmpty
  else false

def isTypeComment (text : List Char) : Bool :=
  match dropPrefix? ['t', 'y', 'p', 'e', ':'] (body text) with
  | none => false
  | some rest => (dropPrefix? ['i', 'g', 'n', 'o', 'r', 'e'] (trimStart rest)).isNone

def isWrongMagic (text : List Char) : Bool :=
  text.head? == some '#' && (isBareNoqa text || isTypeComment text)

def isWorded (token : Token) : Bool :=
  token.kind == .comment && trimStart (trimEnd token.text) != ['#']

def wordedLines (tokens : List Token) : List Nat :=
  (tokens.filter isWorded).map (·.start.line)

def commentViolation? (worded : List Nat) (index : Nat) (token : Token) : Option Violation :=
  let text := trimEnd token.text
  if text = ['#'] then
    if token.start.line - 1 ∈ worded ∧ token.start.line + 1 ∈ worded then none
    else some (.atToken Rule.Catalogue.emptyComment index token)
  else if isWrongMagic text then
    some ((Violation.atToken Rule.Catalogue.wrongMagicComment index token).withText
      (String.ofList text))
  else none

def checker : Checker where
  name := "comment_tokens"
  input := .tokens
  violations _ file :=
    let worded := wordedLines file.tokens
    file.tokens.zipIdx.filterMap fun (token, index) =>
      if token.kind = .comment then commentViolation? worded index token else none

end StyleCheck.Checker.Comments

namespace StyleCheck.Checker

def all : List Checker :=
  [ModuleName.checker, Layout.checker, Unpacking.checker, NumberSpelling.checker, Comments.checker]

def byName? (name : String) : Option Checker :=
  all.find? (·.name == name)

def violationsOf? (name : String) (settings : Settings) (file : SourceFile) :
    Option (List Violation) :=
  (byName? name).map (·.violations settings file)

def allViolations (settings : Settings) (file : SourceFile) : List Violation :=
  (all.flatMap (·.violations settings file)).mergeSort fun a b => a.location.ble b.location

end StyleCheck.Checker
