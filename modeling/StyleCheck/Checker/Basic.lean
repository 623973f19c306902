import StyleCheck.Rule.Catalogue
import StyleCheck.Rule.Violation
import StyleCheck.Settings
import StyleCheck.SyntaxTree.Build
import StyleCheck.Token.Stream

namespace StyleCheck

structure SourceFile where
  name : String
  tree : SyntaxTree
  tokens : List Token

def SourceFile.read (pipeline : Pipeline) (grammar : Grammar) (name : String)
    (source : List Char) : Except BuildError SourceFile := do
  let tree ← pipeline.build grammar source
  let tokens ← (tokenize source).mapError BuildError.invalid
  .ok ⟨name, tree, tokens⟩

namespace Checker

inductive Input
  | tree
  | tokens
  | fileName
deriving DecidableEq, Repr

end Checker

structure Checker where
  name : String
  input : Checker.Input
  violations : Settings → SourceFile → List Violation

namespace Checker

def reportedAfter (checker : Checker) (settings : Settings) (file : SourceFile) (n : Nat) :
    List Violation :=
  (List.replicate n (checker.violations settings file)).flatten

end Checker

namespace Violation

def atFile (rule : Rule) : Violation :=
  ⟨rule, none, none, none⟩

def atNode (rule : Rule) (node : Node) : Violation :=
  ⟨rule, some (.ofNode node), none, none⟩

def atToken (rule : Rule) (index : Nat) (token : Token) : Violation :=
  ⟨rule, some (.ofToken index token), none, none⟩

def withText (v : Violation) (text : String) : Violation :=
  { v with text := some text }

def withBaseline (v : Violation) (baseline : String) : Violation :=
  { v with baseline := some baseline }

end Violation

end StyleCheck
