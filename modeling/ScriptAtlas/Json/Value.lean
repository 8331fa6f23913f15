import ScriptAtlas.Text.Quoted

/-! # JSON values

JSON values and their text, one item a line and two blanks for each level. Objects keep the order of
their fields; numbers are kept as they are written. -/

namespace ScriptAtlas

inductive Json where
  | null
  | bool (b : Bool)
  | number (literal : String)
  | text (s : String)
  | list (items : List Json)
  | object (fields : List (String × Json))
deriving Inhabited

namespace Json

def ofNat (n : Nat) : Json := .number (toString n)

def texts (ss : List String) : Json := .list (ss.map .text)

/-! ### Text -/

/-- Four hexadecimal digits. -/
def hex4 (n : Nat) : String :=
  let digits := Text.hexText n
  String.ofList (List.replicate (4 - digits.length) '0') ++ digits

/-- A character inside a string literal. -/
def escaped (c : Char) : String :=
  if c = '"' then "\\\""
  else if c = '\\' then "\\\\"
  else if c = '\n' then "\\n"
  else if c = '\r' then "\\r"
  else if c = '\t' then "\\t"
  else if c.toNat = 8 then "\\b"
  else if c.toNat = 12 then "\\f"
  else if c.toNat < 0x20 then "\\u" ++ hex4 c.toNat
  else c.toString

/-- A string literal. -/
def literal (s : String) : String := "\"" ++ String.join (s.toList.map escaped) ++ "\""

/-- A new line at a level. -/
def newLine (level : Nat) : String := "\n" ++ String.ofList (List.replicate (2 * level) ' ')

mutual

/-- The text of a value whose line is indented to a level. -/
def prettyAt (level : Nat) : Json → String
  | .null => "null"
  | .bool b => if b then "true" else "false"
  | .number s => s
  | .text s => literal s
  | .list items =>
    if items.isEmpty then "[]"
    else "[" ++ ",".intercalate (prettyItems (level + 1) items) ++ newLine level ++ "]"
  | .object fields =>
    if fields.isEmpty then "\x7b\x7d"
    else "\x7b" ++ ",".intercalate (prettyFields (level + 1) fields) ++ newLine level ++ "\x7d"

/-- The items of a list, each on its line. -/
def prettyItems (level : Nat) : List Json → List String
  | [] => []
  | v :: vs => (newLine level ++ prettyAt level v) :: prettyItems level vs

/-- The fields of an object, each on its line. -/
def prettyFields (level : Nat) : List (String × Json) → List String
  | [] => []
  | (key, v) :: fields =>
    (newLine level ++ literal key ++ ": " ++ prettyAt level v) :: prettyFields level fields

end

/-- The text of a value. -/
def pretty (v : Json) : String := prettyAt 0 v

end Json

end ScriptAtlas
