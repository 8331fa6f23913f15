import ScriptAtlas.Toml.Value

/-! # TOML documents

A document is made statement by statement. A table may be opened by a header once, also after it
has come up on the way to another table; it may not be opened if dotted keys or an assignment made
it, and dotted keys may not reach into it once it was opened. A header in double brackets adds a
table to a list of tables, and later headers mean the last of them. -/

namespace ScriptAtlas.Toml

/-- How a table came to be. -/
inductive Origin where
  /-- On the way to another table. -/
  | implied
  /-- By a dotted key. -/
  | dotted
  /-- By a header of its own. -/
  | opened
deriving DecidableEq, Repr, Inhabited

/-- What a key stands for while the document is read. -/
inductive Item where
  | value (v : Value)
  | table (origin : Origin) (entries : List (String × Item))
  /-- A list of tables, the last one first. -/
  | tables (rows : List (List (String × Item)))
deriving Inhabited

abbrev Entries := List (String × Item)

/-- A statement of a document. -/
inductive Statement where
  | header (path : List String)
  | rowHeader (path : List String)
  | assignment (path : List String) (v : Value)
deriving Inhabited

namespace Entries

/-- Changes the table at a path of headers; tables on the way come to be. -/
def atPath (change : Entries → Option Entries) : List String → Entries → Option Entries
  | [], es => change es
  | key :: path, es =>
    match find? es key with
    | none => do return put key (.table .implied (← atPath change path [])) es
    | some (.table origin inner) => do return put key (.table origin (← atPath change path inner)) es
    | some (.tables (row :: rows)) => do
      return put key (.tables ((← atPath change path row) :: rows)) es
    | some _ => none

/-- Opens the table of a key. -/
def openTable (key : String) (es : Entries) : Option Entries :=
  match find? es key with
  | none => some (put key (.table .opened []) es)
  | some (.table .implied inner) => some (put key (.table .opened inner) es)
  | some _ => none

/-- Adds a table to the list of a key. -/
def openRow (key : String) (es : Entries) : Option Entries :=
  match find? es key with
  | none => some (put key (.tables [[]]) es)
  | some (.tables rows) => some (put key (.tables ([] :: rows)) es)
  | some _ => none

/-- Assigns a value to a key, which may be dotted. It goes into a table that dotted keys made; tables
on the way may also be implied. -/
def assign (v : Value) : List String → Entries → Option Entries
  | [], _ => none
  | [key], es => if (find? es key).isSome then none else some (put key (.value v) es)
  | key :: path, es =>
    match find? es key with
    | none => do return put key (.table .dotted (← assign v path [])) es
    | some (.table origin inner) =>
      if origin = .dotted || (origin = .implied && 1 < path.length) then
        do return put key (.table origin (← assign v path inner)) es
      else none
    | some _ => none

end Entries

mutual

/-- The value of an item. -/
def Item.toValue : Item → Value
  | .value v => v
  | .table _ entries => .table (toValues entries)
  | .tables rows => .list (rowValues rows).reverse

def toValues : List (String × Item) → List (String × Value)
  | [] => []
  | (key, item) :: es => (key, item.toValue) :: toValues es

def rowValues : List (List (String × Item)) → List Value
  | [] => []
  | row :: rows => .table (toValues row) :: rowValues rows

end

/-- A document so far, and the header under which assignments go. -/
structure Draft where
  root : Entries
  current : List String
deriving Inhabited

/-- Takes one more statement; `none` if it does not fit those before. -/
def Draft.add (d : Draft) : Statement → Option Draft
  | .header path => do
    let key ← path.getLast?
    return ⟨← Entries.atPath (Entries.openTable key) path.dropLast d.root, path⟩
  | .rowHeader path => do
    let key ← path.getLast?
    return ⟨← Entries.atPath (Entries.openRow key) path.dropLast d.root, path⟩
  | .assignment path v => do
    return { d with root := ← Entries.atPath (Entries.assign v path) d.current d.root }

/-- The entries of a document. -/
def ofStatements (ss : List Statement) : Option (List (String × Value)) := do
  return toValues (← ss.foldlM Draft.add ⟨[], []⟩).root

/-- The entries of an inline table. -/
def inlineTable (pairs : List (List String × Value)) : Option (List (String × Value)) := do
  return toValues (← pairs.foldlM (fun es p => Entries.assign p.2 p.1 es) [])

end ScriptAtlas.Toml
