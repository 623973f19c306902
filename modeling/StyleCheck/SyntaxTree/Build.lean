import StyleCheck.SyntaxTree.Lowering
import StyleCheck.SyntaxTree.Pass

namespace StyleCheck

inductive BuildError
  | invalid (error : SyntaxError)
  | passOrder (pass missing : String)
deriving DecidableEq, Repr

def BuildError.message : BuildError → String
  | .invalid error => error.message
  | .passOrder pass missing => "transform `" ++ pass ++ "` requires `" ++ missing ++ "` to run first"

def SyntaxTree.run (tree : SyntaxTree) : Pipeline → Except BuildError SyntaxTree
  | [] => .ok tree
  | pass :: rest =>
    match pass.requires.find? (· ∉ tree.applied) with
    | some missing => .error (.passOrder pass.name missing)
    | none => SyntaxTree.run (pass.perform tree) rest

def ParseTree.toSyntaxTree (tree : ParseTree) (source : List Char) : SyntaxTree :=
  ⟨source, tree.toNodes, []⟩

def Pipeline.build (pipeline : Pipeline) (grammar : Grammar) (source : List Char) :
    Except BuildError SyntaxTree :=
  let parsed := grammar source
  match parsed.firstError? with
  | some error => .error (.invalid error)
  | none => (parsed.toSyntaxTree source).run pipeline

end StyleCheck
