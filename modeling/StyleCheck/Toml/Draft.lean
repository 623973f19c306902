import StyleCheck.Toml.Value

/-! Tables while a document is being read: they know how they came about, since that decides whether
they may still grow. -/

namespace StyleCheck.Toml

inductive Draft where
  | value (value : Value)
  /-- `implied` until a header names the table, `dotted` when a dotted key made it. -/
  | table (implied dotted : Bool) (entries : List (String × Draft))
  | tables (items : List (List (String × Draft)))

namespace Draft

abbrev Entries := List (String × Draft)

mutual

def toValue : Draft → Value
  | .value v => v
  | .table _ _ entries => .table (toTable entries)
  | .tables items => .array (toItems items)

def toTable : List (String × Draft) → Table
  | [] => []
  | (key, draft) :: rest => (key, draft.toValue) :: toTable rest

def toItems : List (List (String × Draft)) → List Value
  | [] => []
  | entries :: rest => .table (toTable entries) :: toItems rest

end

def set (key : String) (draft : Draft) : Entries → Entries
  | [] => [(key, draft)]
  | entry :: rest => if entry.1 = key then (key, draft) :: rest else entry :: set key draft rest

/-- Changes the table at a path, given whether it came from a dotted key. Tables that are not there
yet come about on the way; a dotted key does not enter a table that a header has named. -/
def changeAt (viaKey : Bool) (change : Bool → Entries → Option Entries) :
    List String → Bool → Entries → Option Entries
  | [], dotted, entries => change dotted entries
  | key :: path, _, entries =>
    match entries.lookup key with
    | none => do
      let inner ← changeAt viaKey change path viaKey []
      some (set key (.table true viaKey inner) entries)
    | some (.value _) => none
    | some (.table implied dotted inner) =>
      if viaKey && !implied then none
      else do
        let inner ← changeAt viaKey change path dotted inner
        some (set key (.table implied dotted inner) entries)
    | some (.tables items) => do
      let inner ← changeAt viaKey change path false (← items.getLast?)
      some (set key (.tables (items.dropLast ++ [inner])) entries)

structure Entry where
  path : List String
  key : String
  value : Value

def addEntry (entries : Entries) (entry : Entry) : Option Entries :=
  changeAt true (fun dotted inner =>
    if dotted == entry.path.isEmpty || (inner.lookup entry.key).isSome then none
    else some (inner ++ [(entry.key, .value entry.value)])) entry.path false entries

def addEntries (entries : Entries) (added : List Entry) : Option Entries :=
  added.foldlM addEntry entries

structure Section where
  repeated : Bool
  path : List String
  key : String
  entries : List Entry

def addSection (entries : Entries) (part : Section) : Option Entries :=
  changeAt false (fun _ inner =>
    if part.repeated then
      match inner.lookup part.key with
      | none => do some (set part.key (.tables [← addEntries [] part.entries]) inner)
      | some (.tables items) => do
        some (set part.key (.tables (items ++ [← addEntries [] part.entries])) inner)
      | some _ => none
    else
      match inner.lookup part.key with
      | none => do some (set part.key (.table false false (← addEntries [] part.entries)) inner)
      | some (.table true false before) => do
        some (inner.filter (·.1 != part.key) ++
          [(part.key, .table false false (← addEntries before part.entries))])
      | some _ => none) part.path false entries

end Draft

end StyleCheck.Toml
