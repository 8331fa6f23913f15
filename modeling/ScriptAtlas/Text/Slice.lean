/-! # Byte ranges and lines of text

Cutting text at byte offsets of its UTF-8 form, splitting it at a separator, and its lines. -/

namespace ScriptAtlas.Text

/-- `cs` without its first `n` bytes; `none` if those end inside a character or past the end. -/
def dropBytes : Nat → List Char → Option (List Char)
  | 0, cs => some cs
  | _ + 1, [] => none
  | n + 1, c :: cs => if c.utf8Size ≤ n + 1 then dropBytes (n + 1 - c.utf8Size) cs else none

/-- The first `n` bytes of `cs`; `none` if those end inside a character or past the end. -/
def takeBytes : Nat → List Char → Option (List Char)
  | 0, _ => some []
  | _ + 1, [] => none
  | n + 1, c :: cs =>
    if c.utf8Size ≤ n + 1 then (takeBytes (n + 1 - c.utf8Size) cs).map (c :: ·) else none

/-- The bytes from `start` to `stop`, or nothing if they are no whole characters of the text. -/
def slice (s : String) (start stop : Nat) : String :=
  if stop < start then ""
  else
    match dropBytes start s.toList with
    | some cs => String.ofList ((takeBytes (stop - start) cs).getD [])
    | none => ""

section Separators

variable {α : Type} [DecidableEq α]

/-- The parts of `cs` between occurrences of `sep`, at least one. -/
def splitAt (sep : α) : List α → List (List α)
  | [] => [[]]
  | c :: cs =>
    if c = sep then [] :: splitAt sep cs
    else
      match splitAt sep cs with
      | [] => [[c]]
      | part :: parts => (c :: part) :: parts

/-- The part of `cs` behind the last `sep`, or all of it. -/
def afterLast (sep : α) (cs : List α) : List α :=
  (cs.reverse.takeWhile (· ≠ sep)).reverse

/-- The part of `cs` behind the last `sep`, if that does not open it. -/
def behindLast? (sep : α) (cs : List α) : Option (List α) :=
  let part := afterLast sep cs
  if part.length + 1 < cs.length then some part else none

end Separators

/-- A line without the carriage return at its end. -/
def dropReturn (cs : List Char) : List Char :=
  match cs.getLast? with
  | some '\r' => cs.dropLast
  | _ => cs

/-- The lines of a text: what line feeds end, and what follows the last one if it is not empty.
A carriage return before a line feed belongs to the line end. -/
def lines (cs : List Char) : List (List Char) :=
  let parts := splitAt '\n' cs
  let ended := parts.dropLast.map dropReturn
  match parts.getLast? with
  | some [] | none => ended
  | some last => ended ++ [last]

/-- Does `part` occur in `cs`? -/
def occursIn (part : List Char) : List Char → Bool
  | [] => part.isEmpty
  | c :: cs => part.isPrefixOf (c :: cs) || occursIn part cs

end ScriptAtlas.Text
