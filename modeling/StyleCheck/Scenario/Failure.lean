import StyleCheck.Rule.Violation
import StyleCheck.Text.Quoted

namespace StyleCheck

inductive Failure
  | count (expected : List String) (actual : List Record)
  | rule (index : Nat) (expected : String) (actual : Record)
  | unanchored (index : Nat) (actual : Record)
  | single (actual : List Record)
  | empty
  | noPlaceholder (rule template : String)
  | message (expected : String) (actual : Record)
deriving DecidableEq, Repr

namespace Failure

def listNames (records : List Record) : String :=
  Text.quoteList (records.map (·.name))

def text : Failure → String
  | .count expected actual =>
    "expected " ++ toString expected.length ++ " violations " ++ Text.quoteList expected ++
      ", found " ++ toString actual.length ++ " " ++ listNames actual
  | .rule index expected actual =>
    "violation #" ++ toString index ++ ": expected " ++ expected ++ ", found " ++ actual.name ++
      " (" ++ actual.code ++ ")"
  | .unanchored index actual =>
    "violation #" ++ toString index ++ " (" ++ actual.name ++ ") has no location"
  | .single actual =>
    "expected exactly one violation, found " ++ toString actual.length ++ " " ++ listNames actual
  | .empty => "no violation to check the message of"
  | .noPlaceholder name template =>
    "template of " ++ name ++ " has no `: \x7b0\x7d` placeholder: " ++ Text.quote template
  | .message expected actual =>
    "message mismatch: expected " ++ Text.quote expected ++ ", found " ++ Text.quote actual.message

def toJson : Failure → Json
  | .count expected actual =>
    .obj [("failure", .str "count"), ("expected", .arr (expected.map .str)),
      ("actual", recordsJson actual)]
  | .rule index expected actual =>
    .obj [("failure", .str "kind"), ("index", .num index), ("expected", .str expected),
      ("actual", actual.toJson)]
  | .unanchored index actual =>
    .obj [("failure", .str "unanchored"), ("index", .num index), ("actual", actual.toJson)]
  | .single actual => .obj [("failure", .str "single"), ("actual", recordsJson actual)]
  | .empty => .obj [("failure", .str "empty")]
  | .noPlaceholder name template =>
    .obj [("failure", .str "no_placeholder"), ("kind", .str name), ("template", .str template)]
  | .message expected actual =>
    .obj [("failure", .str "message"), ("expected", .str expected), ("actual", actual.toJson)]

def payload (failure : Failure) : String :=
  failure.toJson.pretty

def report (checker : String) (failure : Failure) : String :=
  checker ++ ": " ++ failure.text ++ "\n" ++ failure.payload

end Failure

end StyleCheck
