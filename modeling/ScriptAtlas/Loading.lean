import ScriptAtlas.FileTree
import ScriptAtlas.Json.Reader
import ScriptAtlas.Path
import ScriptAtlas.Source

/-! # Loading source files

Source files come from a file tree, by files named one by one and directories that are walked, or
from a manifest: a JSON list of entries, each with an id and a content. -/

namespace ScriptAtlas

/-- Why no files could be loaded. -/
inductive LoadError where
  | unreadable (path : RawText) (cause : FileError)
  | invalidManifest (path : String) (cause : String)
  | nothingFound (places : String)
deriving DecidableEq, Repr, Inhabited

/-- The message of the error that lies behind a loading error. -/
def LoadError.cause? : LoadError → Option String
  | .unreadable _ cause => some cause.message
  | .invalidManifest _ cause => some cause
  | .nothingFound _ => none

def LoadError.message : LoadError → String
  | .unreadable path cause => s!"failed to read {path.shown}: {cause.message}"
  | .invalidManifest path cause => s!"invalid manifest {path}: {cause}"
  | .nothingFound places => s!"no source files found in {places}"

/-- The text of a file to be loaded. -/
def loadText (tree : FileTree) (path : RawText) : Except LoadError String :=
  (tree.readText path).mapError (.unreadable path)

/-! ### File trees -/

/-- Which files of a directory are source files. -/
structure WalkOptions where
  /-- Without the dot. -/
  extensions : List String
  /-- Names of directories that are passed over. -/
  ignoredDirectories : List String
deriving DecidableEq, Repr, Inhabited

/-- Is a file of this name a source file? -/
def WalkOptions.wants (o : WalkOptions) (name : RawText) : Bool :=
  (name.extension?.bind RawText.text?).any o.extensions.contains

/-- Is a directory of this name passed over? -/
def WalkOptions.ignores (o : WalkOptions) (name : RawText) : Bool :=
  name.text?.any o.ignoredDirectories.contains

/-- The id of the file at a path. -/
def pathId (path : RawText) : String := Path.normalize path.shown

/-- The files found so far, and the ids that are taken, by them or by files that were no text. -/
structure Collection where
  files : List SourceFile
  seen : List String
deriving Inhabited

namespace Collection

/-- Adds a file that was named, unless its id is taken. -/
def addNamed (c : Collection) (path : RawText) (bytes : ByteArray) :
    Except LoadError Collection := do
  let id := pathId path
  if c.seen.contains id then return c
  let content ← (FileTree.decode bytes).mapError (.unreadable path)
  return ⟨c.files ++ [.of id content], id :: c.seen⟩

/-- Adds a file that was found in a directory, unless its id is taken or it is no text. -/
def addFound (directory : RawText) (c : Collection) (f : FileTree.Found) : Collection :=
  let id := pathId (directory.join f.names)
  if c.seen.contains id then c
  else
    match FileTree.decode f.bytes with
    | .ok content => ⟨c.files ++ [.of id content], id :: c.seen⟩
    | .error _ => { c with seen := id :: c.seen }

/-- Adds the file that a path names, or the source files below the directory. -/
def addPath (tree : FileTree) (o : WalkOptions) (c : Collection) (path : RawText) :
    Except LoadError Collection := do
  match ← (tree.find path).mapError (.unreadable path) with
  | .file bytes => c.addNamed path bytes
  | .directory entries =>
    let found := FileTree.walk o.ignores entries
    return (found.filter fun f => o.wants (f.names.getLastD ⟨[]⟩)).foldl (addFound path) c

end Collection

/-- The source files that some paths name. -/
def collect (tree : FileTree) (paths : List RawText) (o : WalkOptions) :
    Except LoadError (List SourceFile) := do
  let c ← paths.foldlM (Collection.addPath tree o) ⟨[], []⟩
  if c.files.isEmpty then throw (.nothingFound (", ".intercalate (paths.map (·.shown))))
  return c.files

/-! ### Manifests -/

namespace Manifest

open Json

/-- What an entry of a manifest is called in messages. -/
def entryName : String := "struct ManifestEntry"

/-- Moves past blanks and a closing bracket, if one follows, and fails there. -/
def failBehind {α : Type} (close : Char) (p : Problem) : Reader α := do
  skipGap
  if ← sees close then skip
  failHere p

/-- Moves to the next item of a list, if there is one. -/
def nextItem (first : Bool) : Reader Bool := do
  skipGap
  match ← next? with
  | none => failNext .endInList
  | some ']' => return false
  | some c =>
    if first then return true
    unless c = ',' do failNext .expectedCommaOrBracket
    skip
    skipGap
    match ← next? with
    | some ']' => failNext .trailingComma
    | some _ => return true
    | none => failNext .endInValue

/-- Moves to the next key of an object, behind its quote, if there is one. -/
def nextKey (first : Bool) : Reader Bool := do
  skipGap
  match ← next? with
  | none => failNext .endInObject
  | some '}' => return false
  | some c =>
    unless first do
      unless c = ',' do failNext .expectedCommaOrBrace
      skip
      skipGap
    match ← next? with
    | some '"' => skip; return true
    | some d => failNext (if d = '}' && !first then .trailingComma else .keyNotText)
    | none => failNext .endInValue

/-- Moves past the end of a list. -/
def endList : Reader Unit := do
  skipGap
  match ← next? with
  | some ']' => skip
  | some ',' =>
    skip
    skipGap
    failNext (if ← sees ']' then .trailingComma else .trailingCharacters)
  | some _ => failNext .trailingCharacters
  | none => failNext .endInList

/-- The fields of an entry that have been read. -/
structure Fields where
  id : Option String := none
  content : Option String := none

/-- The fields of an entry up to its closing brace, at most `n`. A path is an id; other fields are
ignored. -/
def fields : Nat → Bool → Fields → Reader Fields
  | 0, _, _ => failHere .endInObject
  | n + 1, first, read => do
    unless ← nextKey first do return read
    let key ← textLiteral
    if key = "id" || key = "path" then
      if read.id.isSome then failBehind '}' (.duplicateField "id")
      expectColon
      fields n false { read with id := ← expectText }
    else if key = "content" then
      if read.content.isSome then failBehind '}' (.duplicateField "content")
      expectColon
      fields n false { read with content := ← expectText }
    else
      expectColon
      ignored
      fields n false read

/-- An entry as an object, from behind its brace. -/
def objectEntry : Reader (String × String) := do
  let read ← fields ((← get).rest.length + 1) true {}
  let some id := read.id | failBehind '}' (.missingField "id")
  let some content := read.content | failBehind '}' (.missingField "content")
  skip
  return (id, content)

/-- An entry as a list of id and content, from behind its bracket. -/
def listEntry : Reader (String × String) := do
  let expected := entryName ++ " with 2 elements"
  unless ← nextItem true do failBehind ']' (.invalidLength 0 expected)
  let id ← expectText
  unless ← nextItem false do failBehind ']' (.invalidLength 1 expected)
  let content ← expectText
  endList
  return (id, content)

/-- One entry of a manifest. -/
def entry : Reader (String × String) := do
  toValue
  match ← next? with
  | some '[' => skip; listEntry
  | some '{' => skip; objectEntry
  | _ =>
    let f ← found
    failHere (.invalidType f entryName)

/-- The entries up to the closing bracket, at most `n`. -/
def entries : Nat → Bool → Reader (List (String × String))
  | 0, _ => failHere .endInList
  | n + 1, first => do
    unless ← nextItem first do return []
    let e ← entry
    return e :: (← entries n false)

/-- A whole manifest. -/
def document : Reader (List (String × String)) := do
  toValue
  unless ← sees '[' do
    let f ← found
    failHere (.invalidType f "a sequence")
  skip
  let all ← entries ((← get).rest.length + 1) true
  endList
  skipGap
  unless (← next?).isNone do failNext .trailingCharacters
  return all

/-- The source files of a manifest; `origin` names it in messages. -/
def parse (origin text : String) : Except LoadError (List SourceFile) := do
  match document.run ⟨0, text.toList⟩ with
  | .error e => throw (.invalidManifest origin (e.message text))
  | .ok ([], _) => throw (.nothingFound origin)
  | .ok (all, _) => return all.map fun e => .of (Path.normalize e.1) e.2

/-- The source files of a manifest in a file tree. -/
def load (tree : FileTree) (path : String) : Except LoadError (List SourceFile) := do
  parse path (← loadText tree path)

end Manifest

end ScriptAtlas
