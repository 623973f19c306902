import StyleCheck.Margin
import StyleCheck.ParseTree

namespace StyleCheck

structure Host where
  name : String
  version : String
deriving DecidableEq, Repr

structure KnownIssue where
  version : String
  reason : String
deriving DecidableEq, Repr

inductive Prepared
  | ready (source : List Char)
  | skipped (reason : String)
deriving DecidableEq, Repr

structure Preparation where
  host : Host := ⟨"python", "0.25"⟩
  checks : Bool := true
  issues : List KnownIssue := []
deriving DecidableEq, Repr

namespace Preparation

def issue? (p : Preparation) : Option KnownIssue :=
  p.issues.find? (·.version == p.host.version)

def skipReason (p : Preparation) (issue : KnownIssue) (error : SyntaxError) : String :=
  p.host.name ++ " " ++ p.host.version ++ ": " ++ issue.reason ++ " (" ++ error.message ++ ")"

def check (p : Preparation) (grammar : Grammar) (source : List Char) : Except SyntaxError Prepared :=
  if p.checks then
    match (grammar source).firstError? with
    | none => .ok (.ready source)
    | some error =>
      match p.issue? with
      | some issue => .ok (.skipped (p.skipReason issue error))
      | none => .error error
  else .ok (.ready source)

theorem eq_of_check {p : Preparation} {grammar : Grammar} {source ready : List Char}
    (h : p.check grammar source = .ok (.ready ready)) : ready = source := by
  unfold check at h
  split at h
  · split at h
    · cases h
      rfl
    · split at h
      · cases h
      · cases h
  · cases h
    rfl

def prepare (p : Preparation) (grammar : Grammar) (text : List Char) :
    Option (Except SyntaxError Prepared) :=
  (dedent? text).map (p.check grammar)

end Preparation

end StyleCheck
