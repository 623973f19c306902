import StyleCheck.Toml.Scalar

namespace StyleCheck.Toml

namespace DateTable

def reservedKey : String :=
  "$__toml_private_datetime"

def ofText? (text : String) : Option Value := do
  let (date, rest) ← StateT.run Reader.datetime text.toList
  if rest.isEmpty then some (.datetime date) else none

def ofValue? : Value → Option Value
  | .string text => ofText? text
  | _ => none

def spelled? : Table → Option Value
  | (key, value) :: _ => if key = reservedKey then some value else none
  | [] => none

mutual

def resolve? : Value → Option Value
  | .array items => (resolveItems? items).map .array
  | .table entries =>
    match spelled? entries with
    | some spelling => ofValue? spelling
    | none => (resolveEntries? entries).map .table
  | other => some other

def resolveItems? : List Value → Option (List Value)
  | [] => some []
  | item :: rest => do some ((← resolve? item) :: (← resolveItems? rest))

def resolveEntries? : List (String × Value) → Option (List (String × Value))
  | [] => some []
  | (key, value) :: rest => do some ((key, ← resolve? value) :: (← resolveEntries? rest))

end

end DateTable

end StyleCheck.Toml
