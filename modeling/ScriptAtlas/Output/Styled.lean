/-! # Styled text

Text in pieces, each with a style. It is written with escape sequences for a terminal that shows
them, or plain. -/

namespace ScriptAtlas.Output

inductive Colour where
  | red
  | green
  | yellow
  | cyan
deriving DecidableEq, Repr, Inhabited

def Colour.code : Colour → String
  | .red => "31"
  | .green => "32"
  | .yellow => "33"
  | .cyan => "36"

/-- How a piece of text looks. -/
structure Style where
  bold : Bool := false
  dimmed : Bool := false
  colour : Option Colour := none
deriving DecidableEq, Repr, Inhabited

/-- The codes of a style; plain text has none. -/
def Style.codes (s : Style) : List String :=
  (if s.bold then ["1"] else []) ++ (if s.dimmed then ["2"] else []) ++
    (s.colour.map Colour.code).toList

/-- A piece of text in one style. -/
structure Piece where
  text : String
  style : Style := {}
deriving DecidableEq, Repr, Inhabited

abbrev Styled := List Piece

namespace Styled

def plain (s : String) : Styled := [⟨s, {}⟩]

def bold (s : String) : Styled := [⟨s, { bold := true }⟩]

def dimmed (s : String) : Styled := [⟨s, { dimmed := true }⟩]

def coloured (c : Colour) (s : String) : Styled := [⟨s, { colour := some c }⟩]

def strong (c : Colour) (s : String) : Styled := [⟨s, { bold := true, colour := some c }⟩]

/-- A line of text. -/
def line (pieces : Styled) : Styled := pieces ++ plain "\n"

end Styled

/-- Opens a style. -/
def opening (codes : List String) : List Char :=
  '\x1b' :: '[' :: (";".intercalate codes).toList ++ ['m']

/-- Ends all styles. -/
def ending : List Char := ['\x1b', '[', '0', 'm']

/-- `cs` with the style opened again wherever the text itself ends all styles. -/
def reopened (style : List Char) : List Char → List Char
  | [] => []
  | '\x1b' :: '[' :: '0' :: 'm' :: cs => ending ++ style ++ reopened style cs
  | c :: cs => c :: reopened style cs

/-- The characters of a piece, with escape sequences for its style. -/
def Piece.painted (p : Piece) : List Char :=
  if p.style.codes.isEmpty then p.text.toList
  else
    let style := opening p.style.codes
    style ++ reopened style p.text.toList ++ ending

/-- The text, with escape sequences or without. -/
def Styled.text (colours : Bool) (pieces : Styled) : String :=
  String.ofList (pieces.flatMap fun p => if colours then p.painted else p.text.toList)

end ScriptAtlas.Output
