import StyleCheck.Decimal.Binary64

namespace StyleCheck.Toml

inductive Value where
  | string (text : String)
  | integer (value : Int64)
  | float (value : Decimal.Binary64)
  | boolean (value : Bool)
  | datetime (text : String)
  | array (items : List Value)
  | table (entries : List (String × Value))

abbrev Table := List (String × Value)

namespace Table

def get? (table : Table) (key : String) : Option Value :=
  table.lookup key

def insert (table : Table) (key : String) (value : Value) : Table :=
  match table with
  | [] => [(key, value)]
  | entry :: rest => if entry.1 = key then (key, value) :: rest else entry :: insert rest key value

def keys (table : Table) : List String :=
  table.map (·.1)

theorem get?_insert (table : Table) (key other : String) (value : Value) :
    (table.insert key value).get? other = if other = key then some value else table.get? other := by
  induction table with
  | nil => by_cases h : other = key <;> simp [insert, get?, List.lookup_cons, beq_false_of_ne, h]
  | cons entry rest ih =>
    obtain ⟨k, v⟩ := entry
    simp only [get?] at ih
    by_cases hk : k = key
    · by_cases h : other = key <;> simp [insert, get?, List.lookup_cons, beq_false_of_ne, h, hk]
    · by_cases h : other = k
      · subst h
        simp [insert, hk, get?]
      · simp [insert, hk, get?, List.lookup_cons, ih, beq_false_of_ne h]

end Table

end StyleCheck.Toml
