import ScriptAtlas.Text.Raw

/-! # File trees

A file system, seen from a working directory: the entries below that directory, and the directories
above it up to the root. Paths are followed segment by segment, from the root or from the working
directory on, and may climb above it. -/

namespace ScriptAtlas

/-- A file or a directory, with its name. -/
inductive FileEntry where
  | file (name : RawText) (bytes : ByteArray)
  | directory (name : RawText) (entries : List FileEntry)
deriving Inhabited

def FileEntry.name : FileEntry → RawText
  | .file name _ | .directory name _ => name

/-- A directory above another one, which it knows by a name, with its other entries. -/
structure Level where
  name : RawText
  others : List FileEntry
deriving Inhabited

/-- A working directory, and the directories above it, the nearest first and the root last. -/
structure FileTree where
  entries : List FileEntry
  above : List Level
deriving Inhabited

/-- Why a path cannot be read. -/
inductive FileError where
  | notFound
  | notADirectory
  | isADirectory
  | notText
deriving DecidableEq, Repr, Inhabited

def FileError.message : FileError → String
  | .notFound => "No such file or directory (os error 2)"
  | .notADirectory => "Not a directory (os error 20)"
  | .isADirectory => "Is a directory (os error 21)"
  | .notText => "stream did not contain valid UTF-8"

namespace FileTree

/-! ### Directories above -/

/-- An empty directory that is the root. -/
def empty : FileTree := ⟨[], []⟩

/-- The entries of the directories above one with the given entries. -/
def parents (entries : List FileEntry) : List Level → List (List FileEntry)
  | [] => []
  | level :: above =>
    let parent := .directory level.name entries :: level.others
    parent :: parents parent above

/-- The entries of the root. -/
def root (t : FileTree) : List FileEntry := (parents t.entries t.above).getLastD t.entries

/-- The names on the way from the root to the working directory, the last first. -/
def wayUp (t : FileTree) : List RawText := t.above.map (·.name)

/-! ### Following paths -/

/-- What stands at the end of a path. -/
inductive Target where
  | file (bytes : ByteArray)
  | directory (entries : List FileEntry)
deriving Inhabited

/-- The entry of a name. -/
def lookup? (entries : List FileEntry) (name : RawText) : Option Target :=
  (entries.find? (·.name = name)).map fun
    | .file _ bytes => .file bytes
    | .directory _ inner => .directory inner

/-- Follows segments from a directory, of which the directories above are listed, nearest first.
Above the root there is the root. -/
def follow (here : Target) (above : List (List FileEntry)) : List RawText → Except FileError Target
  | [] => .ok here
  | segment :: segments =>
    match here with
    | .file _ => .error .notADirectory
    | .directory entries =>
      if segment = ⟨[]⟩ || segment = .here then follow here above segments
      else if segment = .up then
        follow (.directory (above.headD entries)) above.tail segments
      else
        match lookup? entries segment with
        | some target => follow target (entries :: above) segments
        | none => .error .notFound

/-- What a path names. -/
def find (t : FileTree) (path : RawText) : Except FileError Target :=
  if path = ⟨[]⟩ then .error .notFound
  else if path.isAbsolute then follow (.directory t.root) [] path.segments
  else follow (.directory t.entries) (parents t.entries t.above) path.segments

/-- Does the path name a regular file? -/
def isFile (t : FileTree) (path : RawText) : Bool :=
  match t.find path with
  | .ok (.file _) => true
  | _ => false

/-- Does the path name a directory? -/
def isDirectory (t : FileTree) (path : RawText) : Bool :=
  match t.find path with
  | .ok (.directory _) => true
  | _ => false

/-- Does the path name anything? -/
def contains (t : FileTree) (path : RawText) : Bool := (t.find path).toBool

/-- The text of some bytes. -/
def decode (bytes : ByteArray) : Except FileError String :=
  match String.fromUTF8? bytes with
  | some s => .ok s
  | none => .error .notText

/-- The text of a file. -/
def readText (t : FileTree) (path : RawText) : Except FileError String := do
  match ← t.find path with
  | .file bytes => decode bytes
  | .directory _ => .error .isADirectory

/-! ### Building -/

/-- Takes one more segment of a path; the names so far are listed last first. -/
def step (names : List RawText) (segment : RawText) : List RawText :=
  if segment = ⟨[]⟩ || segment = .here then names
  else if segment = .up then names.tail
  else segment :: names

/-- The names on the way from the root to a path. -/
def locate (t : FileTree) (path : RawText) : List RawText :=
  (path.segments.foldl step (if path.isAbsolute then [] else t.wayUp)).reverse

/-- Puts a file or, without bytes, a directory below entries. -/
def insertAt (bytes : Option ByteArray) : List RawText → List FileEntry → List FileEntry
  | [], entries => entries
  | name :: path, entries =>
    let others := entries.filter (·.name ≠ name)
    let inner := match entries.find? (·.name = name) with
      | some (.directory _ inner) => inner
      | _ => []
    match path, bytes with
    | [], some bytes => .file name bytes :: others
    | _, _ => .directory name (insertAt bytes path inner) :: others

/-- The tree seen from a directory below the working directory; one that is not there is empty. -/
def enter : List RawText → FileTree → FileTree
  | [], t => t
  | name :: names, t =>
    let inner := match lookup? t.entries name with
      | some (.directory inner) => inner
      | _ => []
    enter names ⟨inner, ⟨name, t.entries.filter (·.name ≠ name)⟩ :: t.above⟩

/-- Puts a file or a directory at a path, with the directories above it. -/
def put (t : FileTree) (path : RawText) (bytes : Option ByteArray) : FileTree :=
  enter t.wayUp.reverse ⟨insertAt bytes (t.locate path) t.root, []⟩

/-- Puts a file at a path, with the directories above it. -/
def write (t : FileTree) (path : RawText) (bytes : ByteArray) : FileTree := t.put path (some bytes)

/-- Puts a directory at a path, with the directories above it. -/
def makeDirectory (t : FileTree) (path : RawText) : FileTree := t.put path none

/-! ### Walking -/

/-- A file below a directory: the names on the way to it, and its bytes. -/
structure Found where
  names : List RawText
  bytes : ByteArray
deriving Inhabited

mutual

/-- The files of an entry, by names from the entry on; directories whose name is `ignored` are
passed over. Entries come by name, and a directory's files together. -/
def filesOf (ignored : RawText → Bool) : FileEntry → List Found
  | .file name bytes => [⟨[name], bytes⟩]
  | .directory name entries =>
    if ignored name then []
    else
      ((groups ignored entries).mergeSort fun a b => a.1 ≤ b.1).flatMap fun g =>
        g.2.map fun f => { f with names := name :: f.names }

/-- The names of entries with the files of each. -/
def groups (ignored : RawText → Bool) : List FileEntry → List (RawText × List Found)
  | [] => []
  | e :: es => (e.name, filesOf ignored e) :: groups ignored es

end

/-- The files below a directory, entries in the order of their names. -/
def walk (ignored : RawText → Bool) (entries : List FileEntry) : List Found :=
  ((groups ignored entries).mergeSort fun a b => a.1 ≤ b.1).flatMap (·.2)

end FileTree

end ScriptAtlas
