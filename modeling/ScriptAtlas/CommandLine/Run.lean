import ScriptAtlas.CommandLine.Command
import ScriptAtlas.Config
import ScriptAtlas.Output.Listing
import ScriptAtlas.Output.Record

/-! # Carrying out commands

A command reads the configuration and the source files, asks its question and gives the text to
print. All it can see is its surroundings: the file tree, the standard input, and whether colours
are shown. -/

namespace ScriptAtlas.CommandLine

/-- What a command can see. -/
structure Surroundings where
  tree : FileTree
  input : ByteArray := .empty
  colours : Bool := false
deriving Inhabited

/-- Why a command has no answer. -/
inductive Failure where
  | noConfig (path : String)
  | unknownPreset (name : String) (known : List String)
  | loadingManifest (path : String) (cause : LoadError)
  | collecting (cause : LoadError)
  | readingFile (path : String) (cause : FileError)
  | readingInput (cause : FileError)
  | query (cause : QueryError)
deriving DecidableEq, Repr, Inhabited

/-- A message and those that lie behind it. -/
def withCauses (message : String) (e : LoadError) : String :=
  ": ".intercalate (message :: e.message :: e.cause?.toList)

def Failure.message : Failure → String
  | .noConfig path => s!"config file {path} does not exist"
  | .unknownPreset name known =>
    let names := if known.isEmpty then "none" else ", ".intercalate known
    s!"unknown keyword preset \x60{name}\x60 (known: {names})"
  | .loadingManifest path cause => withCauses s!"loading manifest {path}" cause
  | .collecting cause => withCauses "collecting source files" cause
  | .readingFile path cause => s!"reading {path}: {cause.message}"
  | .readingInput cause => s!"reading stdin: {cause.message}"
  | .query cause => cause.message

/-! ### Configuration and sources -/

/-- The first place at which a command looks for source files. -/
def Command.firstPath? : Command → Option String
  | .deps _ s | .callers _ s | .graph s _ _ _ | .hotspots s _ => s.paths.head?
  | .keywords _ _ inputs _ => inputs.head?
  | .complexity _ => none

/-- The directory whose configuration applies. -/
def Command.configRoot (c : Command) (tree : FileTree) : String :=
  match c.firstPath? with
  | some path => if tree.isDirectory path then path else "."
  | none => "."

/-- The configuration of an invocation. -/
def configFor (tree : FileTree) (i : Invocation) : Except Failure Config :=
  match i.config with
  | some path => if tree.contains path then .ok (.load tree path) else .error (.noConfig path)
  | none => .ok (.load tree (Config.fileIn (i.command.configRoot tree)))

/-- The source files of a command, and how their imports are looked up. -/
structure Loaded where
  files : List SourceFile
  mode : Addressing

/-- Loads a manifest if one is given, and what the paths name otherwise. -/
def Sources.load (s : Sources) (tree : FileTree) (config : Config) : Except Failure Loaded :=
  match s.manifest with
  | some path => do
    return ⟨← (Manifest.load tree path).mapError (.loadingManifest path), .virtual⟩
  | none => do
    let files ← (collect tree (s.paths.map .ofString) config.walkOptions).mapError .collecting
    return ⟨files, .filesystem⟩

/-- The keywords of a preset, if one is named, and the words given. -/
def keywordList (config : Config) (preset : Option String) (words : List String) :
    Except Failure (List String) :=
  match preset with
  | none => .ok words
  | some name =>
    match config.preset? name with
    | some ws => .ok (ws ++ words)
    | none => .error (.unknownPreset name (config.presets.map (·.1)))

/-- The text of a file; `-` stands for the standard input. -/
def readCode (s : Surroundings) (file : String) : Except Failure String :=
  if file = "-" then (FileTree.decode s.input).mapError .readingInput
  else (s.tree.readText file).mapError (.readingFile file)

/-- The options of a graph, those of the command before those of the configuration. -/
def graphOptions (config : Config) (threshold : Option Nat) (includeDynamic : Bool) :
    GraphOptions :=
  { config.graph with
    hubThreshold := threshold.getD config.graph.hubThreshold
    includeDynamicImports := includeDynamic || config.graph.includeDynamicImports }

/-! ### Answers -/

/-- An answer, to be printed for people or as JSON. -/
inductive Answer where
  | dependencies (target : String) (d : Function.Dependencies)
  | callers (c : Function.Callers)
  | findings (fs : List Function.Finding)
  | graph (r : GraphReport)
  | complexity (file : String) (n : Nat)
  | hotspots (fs : List Function.Ranked)

def Answer.toJson : Answer → Json
  | .dependencies _ d => d.toJson
  | .callers c => c.toJson
  | .findings fs => .list (fs.map (·.toJson))
  | .graph r => r.toJson
  | .complexity file n => .object [("complexity", .ofNat n), ("file", .text file)]
  | .hotspots fs => .list (fs.map (·.toJson))

def Answer.listing : Answer → Output.Styled
  | .dependencies target d => Output.dependencies target d
  | .callers c => Output.callers c
  | .findings fs => Output.findings fs
  | .graph r => Output.graph r
  | .complexity _ n => .plain s!"{n}\n"
  | .hotspots fs => Output.hotspots fs

/-- The answer to a command. -/
def Command.answer (s : Surroundings) (config : Config) : Command → Except Failure Answer
  | .deps target sources => do
    let loaded ← sources.load s.tree config
    return .dependencies target
      (← (Function.dependencies loaded.files target).mapError .query)
  | .callers target sources => do
    let loaded ← sources.load s.tree config
    return .callers (← (Function.callers loaded.files target).mapError .query)
  | .keywords words preset inputs manifest => do
    let ws ← keywordList config preset words
    let sources : Sources := ⟨if inputs.isEmpty then ["."] else inputs, manifest⟩
    let loaded ← sources.load s.tree config
    return .findings (← (Function.keywordFindings loaded.files ws).mapError .query)
  | .graph sources threshold includeDynamic mode => do
    let loaded ← sources.load s.tree config
    let options := graphOptions config threshold includeDynamic
    return .graph
      (← (graphReport s.tree loaded.files (mode.getD loaded.mode) options).mapError .query)
  | .complexity file => do
    return .complexity file (Function.complexityOfCode (← readCode s file))
  | .hotspots sources top => do
    let loaded ← sources.load s.tree config
    return .hotspots ((Function.ranking loaded.files).take top)

/-- The text that an invocation prints. -/
def run (s : Surroundings) (i : Invocation) : Except Failure String := do
  let config ← configFor s.tree i
  let answer ← i.command.answer s config
  return if i.json then answer.toJson.pretty ++ "\n" else answer.listing.text s.colours

end ScriptAtlas.CommandLine
