import StyleCheck.Proofs.SyntaxTree.Decoration

/-!
The order of passes. A pass is checked against the record of the tree that it is handed, which is
the list of the passes before it as long as none of them rewrites the record.
-/

namespace StyleCheck

namespace Pass

end Pass

namespace Pipeline

def perform (passes : Pipeline) (tree : SyntaxTree) : SyntaxTree :=
  passes.foldl (fun tree pass => pass.perform tree) tree

/-- Each pass requires only names that are given behind the passes before it. -/
def IsOrdered (given : Pipeline → List String) (pipeline : Pipeline) : Prop :=
  ∀ before pass after, pipeline = before ++ pass :: after →
    ∀ name ∈ pass.requires, name ∈ given before

variable {given : Pipeline → List String} {first pass : Pass} {rest : Pipeline} {missing : String}

theorem isOrdered_nil (given : Pipeline → List String) : IsOrdered given [] := by
  intro before pass after h
  cases before <;> cases h

theorem isOrdered_cons_iff : IsOrdered given (first :: rest) ↔
    (∀ name ∈ first.requires, name ∈ given []) ∧
      IsOrdered (fun before => given (first :: before)) rest := by
  constructor
  · intro h
    constructor
    · exact h [] first rest rfl
    · intro before pass after hsplit
      exact h (first :: before) pass after (by rw [hsplit]; rfl)
  · rintro ⟨hfirst, hrest⟩ before pass after hsplit
    cases before with
    | nil =>
      cases hsplit
      exact hfirst
    | cons first' before =>
      cases hsplit
      exact hrest before pass after rfl

end Pipeline

namespace SyntaxTree

open Pipeline

end SyntaxTree

namespace Pipeline

variable {pipeline : Pipeline} {grammar : Grammar} {source : List Char}

theorem exists_ordered_not_built : ∃ (pipeline : Pipeline) (grammar : Grammar)
    (source : List Char), (grammar source).firstError? = none ∧ pipeline.IsOrdered names ∧
      pipeline.build grammar source = .error (.passOrder "mark_scopes" "link_parents") := by
  let forget : Pass := ⟨"forget", [], fun tree => { tree with applied := [] }⟩
  refine ⟨[.linkParents, forget, .markScopes], asyncDefinition, [], rfl, ?_, rfl⟩
  simp [isOrdered_cons_iff, isOrdered_nil, names, forget, Pass.linkParents, Pass.markScopes,
    Pass.onNodes]

end Pipeline

end StyleCheck
