/-! # TOML values

The values of a TOML document. Of floating-point numbers and dates only what a reader of settings
may ask is kept. -/

namespace ScriptAtlas.Toml

inductive Value where
  | text (s : String)
  | integer (n : Int)
  /-- A floating-point number that is in range, or not. -/
  | float (inRange : Bool)
  | boolean (b : Bool)
  | datetime
  | list (items : List Value)
  | table (entries : List (String × Value))
deriving Inhabited

/-- The value of a key. -/
def find? {α : Type} (entries : List (String × α)) (key : String) : Option α :=
  (entries.find? (·.1 = key)).map (·.2)

/-- The entries with the value of a key changed, or with the key put at the end. -/
def put {α : Type} (key : String) (v : α) : List (String × α) → List (String × α)
  | [] => [(key, v)]
  | (k, old) :: es => if k = key then (key, v) :: es else (k, old) :: put key v es

mutual

/-- Are all numbers in a value within the range of the reader? -/
def Value.inRange : Value → Bool
  | .integer n => -(Nat.pow 2 127 : Int) ≤ n && n < Nat.pow 2 128
  | .float ok => ok
  | .list items => allInRange items
  | .table entries => entriesInRange entries
  | _ => true

def allInRange : List Value → Bool
  | [] => true
  | v :: vs => v.inRange && allInRange vs

def entriesInRange : List (String × Value) → Bool
  | [] => true
  | (_, v) :: es => v.inRange && entriesInRange es

end

end ScriptAtlas.Toml
