import StyleCheck.Rule.Registry
import StyleCheck.Text.Alphanumeric
import StyleCheck.Text.Quoted

namespace StyleCheck

inductive Finding
  | bandStart (group : String) (lowest expected : Nat)
  | singleGap (group : String) (before after : Nat)
  | docMentions (qualified : String) (count : Nat)
  | versionAdded (name : String) (count : Nat)
  | versionChanged (name : String) (count expected : Nat)
  | trailingPeriod (name : String)
deriving DecidableEq, Repr

namespace Finding

def message : Finding → String
  | .bandStart group lowest expected =>
    "module " ++ group ++ " starts at " ++ toString lowest ++ ", expected " ++ toString expected
  | .singleGap group before after =>
    "module " ++ group ++ " skips a single code between " ++ toString before ++ " and " ++
      toString after
  | .docMentions qualified count =>
    "module docs mention " ++ qualified ++ " " ++ toString count ++ " times, expected 2"
  | .versionAdded name count =>
    name ++ " docs carry " ++ toString count ++ " versionadded markers, expected 1"
  | .versionChanged name count expected =>
    name ++ " docs carry " ++ toString count ++ " versionchanged markers, expected " ++
      toString expected
  | .trailingPeriod name => name ++ " message template ends with a period"

def report (findings : List Finding) : String :=
  "registry has " ++ toString findings.length ++ " audit findings:\n" ++
    "\n".intercalate (findings.map fun finding => "  " ++ finding.message)

end Finding

namespace Registry

def bandStartFindings (m : RuleModule) : List Nat → List Finding
  | [] => []
  | lowest :: _ => if lowest = m.bandStart then [] else [.bandStart m.name lowest m.bandStart]

def gapFindings (m : RuleModule) : List Nat → List Finding
  | before :: after :: rest =>
    (if after - before = 2 then [.singleGap m.name before after] else []) ++
      gapFindings m (after :: rest)
  | _ => []

def codesUnder (r : Registry) (m : RuleModule) : List Nat :=
  let rules := r.rules.filter fun rule => (r.module? rule.group).any (·.index == m.index)
  sortCodes (rules.map (·.code))

def numberingFindings (r : Registry) (m : RuleModule) : List Finding :=
  bandStartFindings m (r.codesUnder m) ++ gapFindings m (r.codesUnder m)

def isIdentifierChar (c : Char) : Bool :=
  Text.isAlphanumeric c || c == '_'

def countMentions (docs name : List Char) : Nat :=
  (Text.following name docs).countP fun rest => !(rest.head?.any isIdentifierChar)

def countWord (word docs : String) : Nat :=
  Text.count word.toList docs.toList

def mentionFindings (r : Registry) (rule : Rule) : List Finding :=
  match r.module? rule.group with
  | none => []
  | some owner =>
    let count := countMentions owner.docs.toList rule.qualifiedName.toList
    if count = 2 then [] else [.docMentions rule.qualifiedName count]

def docFindings (r : Registry) (rule : Rule) : List Finding :=
  let added := countWord "versionadded" rule.docs
  let changed := countWord "versionchanged" rule.docs
  let expected := rule.previousCodes.length
  r.mentionFindings rule ++
  (if added = 1 then [] else [.versionAdded rule.name added]) ++
  (if changed = expected then [] else [.versionChanged rule.name changed expected]) ++
  (if rule.template.toList.getLast? = some '.' then [.trailingPeriod rule.name] else [])

def modulesByIndex (r : Registry) : List RuleModule :=
  r.modules.mergeSort (·.index ≤ ·.index)

def audit (r : Registry) : List Finding :=
  r.modulesByIndex.flatMap r.numberingFindings ++ r.rules.flatMap r.docFindings

end Registry

end StyleCheck
