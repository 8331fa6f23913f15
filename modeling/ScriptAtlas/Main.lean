import ScriptAtlas.CommandLine.Place

/-! # The command line

Reads the files that a command names, carries the command out and prints its answer. A directory is
walked as far as its files are known: their names are read from the standard input, where a listing
such as that of `find` is taken, in any order and with other files among them. -/

namespace ScriptAtlas.CommandLine

/-- How the program is used. -/
def usage : String :=
  "usage: scriptatlas [--json] [--log-level LEVEL] [--config FILE] COMMAND\n\n" ++
  "  deps TARGET [PATHS]...       what a function calls\n" ++
  "  callers TARGET [PATHS]...    which named functions call a function\n" ++
  "  keywords KEYWORD...          named functions whose text mentions a keyword\n" ++
  "  graph [PATHS]...             the imports between modules\n" ++
  "  complexity FILE              the complexity of a file, or of the standard input for -\n" ++
  "  hotspots [PATHS]...          the most complex functions\n\n" ++
  "The files below PATHS that are directories are listed on the standard input, one a line.\n"

/-- The text that was asked for in place of an answer. -/
def UsageError.request? : UsageError → Option String
  | .help => some usage
  | .version => some "scriptatlas 0.3.2\n"
  | _ => none

/-- The file system as far as it is known at first, seen from the working directory. -/
def freshTree : IO FileTree := do
  let path : RawText := toString (← IO.currentDir)
  return .enter (path.segments.filter (· ≠ ⟨[]⟩)) .empty

/-- Adds the files at some paths that can be read to a tree, and the directories without their
entries. -/
def addPlaces (tree : FileTree) (paths : List String) : IO FileTree :=
  paths.foldlM (fun t (path : String) => do
    match ← (IO.FS.readBinFile path).toBaseIO with
    | .ok bytes => return t.write path bytes
    | .error (.inappropriateType ..) => return t.makeDirectory path
    | .error _ => return t) tree

/-- The rest of a stream. -/
partial def readRest (stream : IO.FS.Stream) (bytes : ByteArray) : IO ByteArray := do
  let more ← stream.read 65536
  if more.isEmpty then return bytes else readRest stream (bytes ++ more)

/-- What an invocation can see. -/
def surroundings (i : Invocation) : IO Surroundings := do
  let stdin ← IO.getStdin
  let named ← addPlaces (← freshTree) i.places
  let listing ← if i.walks named && !(← stdin.isTty) then readRest stdin .empty else pure .empty
  let found ← addPlaces named (listedPaths listing)
  let tree ← addPlaces found (i.importPlaces found)
  let input ← match i.command with
    | .complexity "-" => readRest stdin .empty
    | _ => pure .empty
  let colours := (← (← IO.getStdout).isTty) && (← IO.getEnv "NO_COLOR").isNone
  return { tree, input, colours }

end ScriptAtlas.CommandLine

open ScriptAtlas.CommandLine in
/-- Prints the answer, or the reason why there is none. -/
def main (args : List String) : IO UInt32 := do
  match parse args with
  | .error e =>
    match e.request? with
    | some text =>
      IO.print text
      return 0
    | none =>
      IO.eprint usage
      return 2
  | .ok invocation =>
    match run (← surroundings invocation) invocation with
    | .ok text =>
      IO.print text
      return 0
    | .error failure =>
      IO.eprintln s!"error: {failure.message}"
      return 1
