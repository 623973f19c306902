import StyleCheck.Proofs.SyntaxTree.Addresses

/-!
The first fault of a tree. The search passes over what a node says to be without fault; where the
nodes tell the truth, it comes to the fault that a scan of the whole tree in preorder meets first.
-/

namespace StyleCheck.ParseTree

namespace Info

def IsFault (info : Info) : Prop :=
  info.isMissing = true ∨ info.isError = true

def error (info : Info) : SyntaxError :=
  ⟨.ofPoint info.start, if info.isMissing then .missing info.kind else .unexpectedInput⟩

variable {info : Info}

end Info

/-- A node says that it holds an error exactly when it or a node below it is a fault. -/
def FlagsFaults (tree : ParseTree) : Prop :=
  ∀ address t, tree.at? address = some t →
    (t.info.hasError = true ↔ ∃ info ∈ t.preorder, info.IsFault)

theorem FlagsFaults.child {tree child : ParseTree} (h : tree.FlagsFaults)
    (hc : child ∈ tree.children) : child.FlagsFaults := by
  obtain ⟨k, hk⟩ := List.mem_iff_getElem?.mp hc
  intro address t ht
  apply h (k :: address)
  rwa [at?, hk]

namespace Cursor

def rest : Cursor → List ParseTree
  | root _ => []
  | child parent _ right => right ++ parent.rest

end Cursor

end StyleCheck.ParseTree
