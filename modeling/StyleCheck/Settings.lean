import StyleCheck.Decimal.Shortest
import StyleCheck.Json
import StyleCheck.Text.Quoted
import StyleCheck.Toml.Document

namespace StyleCheck

structure Settings where
  minNameLength : Nat := 2
  maxNameLength : Nat := 45
  maxTupleUnpackLength : Nat := 4
  forbiddenModuleNames : List String :=
    ["util", "utils", "utilities", "helpers", "common", "misc"]
deriving DecidableEq, Repr

namespace Settings

inductive Setting
  | forbiddenModuleNames
  | maxNameLength
  | maxTupleUnpackLength
  | minNameLength
deriving DecidableEq, Repr

namespace Setting

def name : Setting → String
  | .forbiddenModuleNames => "forbidden_module_names"
  | .maxNameLength => "max_name_length"
  | .maxTupleUnpackLength => "max_tuple_unpack_length"
  | .minNameLength => "min_name_length"

def all : List Setting :=
  [.forbiddenModuleNames, .maxNameLength, .maxTupleUnpackLength, .minNameLength]

def ofName? (name : String) : Option Setting :=
  all.find? (·.name == name)

theorem ofName?_name (setting : Setting) : ofName? setting.name = some setting := by
  cases setting <;> decide

end Setting

inductive Mismatch
  | wrongType (found : Toml.Value) (expected : String)
  | negative (value : Int64)

namespace Mismatch

def describe : Toml.Value → String
  | .string text => "string " ++ Text.quote text
  | .integer value => "integer `" ++ toString value.toInt ++ "`"
  | .float value => "floating point `" ++ value.text ++ "`"
  | .boolean value => "boolean `" ++ toString value ++ "`"
  | .datetime text => "string " ++ Text.quote text
  | .array _ => "sequence"
  | .table _ => "map"

def message : Mismatch → String
  | .wrongType found expected => "invalid type: " ++ describe found ++ ", expected " ++ expected
  | .negative value => "invalid value: integer `" ++ toString value.toInt ++ "`, expected usize"

end Mismatch

inductive Conflict
  | minNameZero
  | maxNameBelowMin (least : Nat)
  | tupleZero
deriving DecidableEq, Repr

namespace Conflict

def setting : Conflict → Setting
  | .minNameZero => .minNameLength
  | .maxNameBelowMin _ => .maxNameLength
  | .tupleZero => .maxTupleUnpackLength

def reason : Conflict → String
  | .minNameZero => "must be at least 1"
  | .maxNameBelowMin least => "must not be below min_name_length (" ++ toString least ++ ")"
  | .tupleZero => "must be at least 1"

end Conflict

inductive Error
  | malformed
  | unknown (name : String)
  | mistyped (setting : Setting) (mismatch : Mismatch)
  | unfit (setting : Setting) (mismatch : Mismatch)
  /-- Settings with numbers of more than 63 bits are not written out to be changed. -/
  | tooLarge (setting : Setting)
  | conflict (conflict : Conflict)

namespace Error

def invalidMessage (setting : Setting) (reason : String) : String :=
  "invalid value for `" ++ setting.name ++ "`: " ++ reason

def message? : Error → Option String
  | .malformed => none
  | .unknown name => some ("unknown option `" ++ name ++ "`")
  | .mistyped setting mismatch =>
    some ("failed to parse settings: " ++ mismatch.message ++ "\nin `" ++ setting.name ++ "`\n")
  | .unfit setting mismatch => some (invalidMessage setting mismatch.message)
  | .tooLarge setting => some (invalidMessage setting "u64 value was too large")
  | .conflict c => some (invalidMessage c.setting c.reason)

end Error

def conflict? (s : Settings) : Option Conflict :=
  if s.minNameLength = 0 then some .minNameZero
  else if s.maxNameLength < s.minNameLength then some (.maxNameBelowMin s.minNameLength)
  else if s.maxTupleUnpackLength = 0 then some .tupleZero
  else none

def validate (s : Settings) : Except Error Settings :=
  match s.conflict? with
  | some conflict => .error (.conflict conflict)
  | none => .ok s

theorem conflict?_eq_none_iff {s : Settings} : s.conflict? = none ↔
    1 ≤ s.minNameLength ∧ s.minNameLength ≤ s.maxNameLength ∧ 1 ≤ s.maxTupleUnpackLength := by
  simp only [conflict?]
  repeat' split
  all_goals simp
  all_goals omega

def toLength : Toml.Value → Except Mismatch Nat
  | .integer value =>
    if value.toInt < 0 then .error (.negative value) else .ok value.toInt.toNat
  | other => .error (.wrongType other "usize")

def toName : Toml.Value → Except Mismatch String
  | .string text => .ok text
  | .datetime text => .ok text
  | other => .error (.wrongType other "a string")

def toNames : Toml.Value → Except Mismatch (List String)
  | .array items => items.mapM toName
  | other => .error (.wrongType other "a sequence")

def put (s : Settings) : Setting → Toml.Value → Except Mismatch Settings
  | .forbiddenModuleNames, value => do .ok { s with forbiddenModuleNames := ← toNames value }
  | .maxNameLength, value => do .ok { s with maxNameLength := ← toLength value }
  | .maxTupleUnpackLength, value => do .ok { s with maxTupleUnpackLength := ← toLength value }
  | .minNameLength, value => do .ok { s with minNameLength := ← toLength value }

def putFrom (table : Toml.Table) (s : Settings) (setting : Setting) : Except Error Settings :=
  match table.get? setting.name with
  | none => .ok s
  | some value => (s.put setting value).mapError (.mistyped setting)

def least? : List String → Option String
  | [] => none
  | name :: rest => some (rest.foldl (fun least name => if name < least then name else least) name)

/-- Names that are no settings are found before any value is looked at, then the first value that
does not fit in the order of the names. -/
def ofTable (table : Toml.Table) : Except Error Settings := do
  match least? (table.keys.filter fun name => (Setting.ofName? name).isNone) with
  | some name => .error (.unknown name)
  | none =>
    let s ← Setting.all.foldlM (putFrom table) {}
    s.validate

def ofReader (readTable? : List Char → Option Toml.Table) (text : List Char) :
    Except Error Settings :=
  match readTable? text with
  | none => .error .malformed
  | some table => ofTable table

def ofText (text : List Char) : Except Error Settings :=
  ofReader Toml.readTable? text

def greatestWritten : Nat := Int64.maxValue.toInt.toNat

def isWritable (s : Settings) : Bool :=
  s.minNameLength ≤ greatestWritten && s.maxNameLength ≤ greatestWritten &&
    s.maxTupleUnpackLength ≤ greatestWritten

def written (s : Settings) : Setting → Toml.Value
  | .forbiddenModuleNames => .array (s.forbiddenModuleNames.map .string)
  | .maxNameLength => .integer (.ofNat s.maxNameLength)
  | .maxTupleUnpackLength => .integer (.ofNat s.maxTupleUnpackLength)
  | .minNameLength => .integer (.ofNat s.minNameLength)

def toTable? (s : Settings) : Option Toml.Table :=
  if s.isWritable then some (Setting.all.map fun setting => (setting.name, s.written setting))
  else none

def Error.laidTo (setting : Setting) : Error → Error
  | .mistyped _ mismatch => .unfit setting mismatch
  | e => e

/-- The settings with one of them changed, as long as they go together. They are written as a table,
which is read again with the value in its place. -/
def withOption (s : Settings) (name : String) (value : Toml.Value) : Except Error Settings :=
  match Setting.ofName? name with
  | none => .error (.unknown name)
  | some setting =>
    match s.toTable? with
    | none => .error (.tooLarge setting)
    | some table => do
      let changed ←
        (Setting.all.foldlM (putFrom (table.insert name value)) {}).mapError (.laidTo setting)
      changed.validate

def lengthSchema (description : Option String) (default : Nat) : Json :=
  .obj (((description.map fun text => ("description", Json.str text)).toList) ++
    [("type", .str "integer"), ("format", .str "uint"), ("minimum", .num 0),
     ("default", .num default)])

def schema (dialect : String) : Json :=
  let s : Settings := {}
  .obj
    [("$schema", .str dialect),
     ("title", .str "Settings"),
     ("description", .str "Options consumed by the builtin visitors."),
     ("type", .str "object"),
     ("properties", .obj
       [("min_name_length", lengthSchema
          (some "Shortest allowed module name, ignoring leading and trailing underscores.")
          s.minNameLength),
        ("max_name_length", lengthSchema none s.maxNameLength),
        ("max_tuple_unpack_length", lengthSchema
          (some "Most names a single unpacking target may bind.") s.maxTupleUnpackLength),
        ("forbidden_module_names", .obj
          [("type", .str "array"), ("items", .obj [("type", .str "string")]),
           ("default", .arr (s.forbiddenModuleNames.map .str))])]),
     ("additionalProperties", .bool false)]

end Settings

end StyleCheck
