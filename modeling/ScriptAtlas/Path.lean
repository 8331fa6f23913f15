import ScriptAtlas.Text.Slice

/-! # Paths

Paths are texts of segments with `/` between them. `normalize` brings a path to its canonical form:
backslashes separate too, empty and `.` segments go, and `..` takes away the segment before it.
A relative path may still open with `..` segments, which climb above where it starts. -/

namespace ScriptAtlas.Path

open Text

/-- One segment of a path. -/
abbrev Segment := List Char

def dotDot : Segment := ['.', '.']

/-- `cs` with backslashes turned into slashes. -/
def slashed (cs : List Char) : List Char := cs.map fun c => if c = '\\' then '/' else c

/-- Is the path absolute? -/
def isAbsolute (cs : List Char) : Bool := cs.head? = some '/'

/-- Takes one more segment; the segments so far are listed last first. -/
def push (absolute : Bool) (done : List Segment) (segment : Segment) : List Segment :=
  if segment = [] || segment = ['.'] then done
  else if segment = dotDot then
    match done with
    | last :: rest =>
      if last ≠ dotDot then rest else if absolute then done else dotDot :: done
    | [] => if absolute then [] else [dotDot]
  else segment :: done

/-- Segments with slashes between them. -/
def joinSegments (segments : List Segment) : List Char := List.intercalate ['/'] segments

/-- The segments of the canonical form. -/
def canonical (absolute : Bool) (segments : List Segment) : List Segment :=
  (segments.foldl (push absolute) []).reverse

def normalizeChars (cs : List Char) : List Char :=
  let path := slashed cs
  let absolute := isAbsolute path
  let joined := joinSegments (canonical absolute (splitAt '/' path))
  if absolute then '/' :: joined else joined

/-- The canonical form of a path. -/
def normalize (path : String) : String := String.ofList (normalizeChars path.toList)

/-- The part of a path before its last slash; empty if there is none. -/
def parentChars (cs : List Char) : List Char :=
  ((cs.reverse.dropWhile (· ≠ '/')).drop 1).reverse

/-- The directory part of a path. -/
def parent (path : String) : String := String.ofList (parentChars path.toList)

/-- The part of a path behind its last slash. -/
def baseName (path : String) : String := String.ofList (afterLast '/' path.toList)

/-- The last segment of a path as the file system sees it: slashes and `.` segments at the end do
not count, and `..` names nothing. -/
def fileName? (path : String) : Option Segment :=
  match (splitAt '/' path.toList).filter (fun s => s ≠ [] && s ≠ ['.']) |>.getLast? with
  | some s => if s = dotDot then none else some s
  | none => none

/-- The extension of a path as the file system sees it: what follows the last dot of its file name,
unless the dot opens it. -/
def extension? (path : String) : Option String :=
  (fileName? path).bind fun name => (behindLast? '.' name).map String.ofList

end ScriptAtlas.Path
