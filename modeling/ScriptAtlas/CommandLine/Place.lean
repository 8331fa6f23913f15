import ScriptAtlas.CommandLine.Run

/-! # Places that a command looks at

The files that a command may read, by name: those on its command line with the configuration, those
that a listing of its directories names, and for a module graph the files that imports may stand
for. -/

namespace ScriptAtlas.CommandLine

/-- The places from which a command takes source files. -/
def Command.sources : Command → Sources
  | .deps _ s | .callers _ s | .graph s _ _ _ | .hotspots s _ => s
  | .keywords _ _ inputs manifest => ⟨inputs, manifest⟩
  | .complexity file => ⟨[file], none⟩

/-- The configuration or the places where it may stand, the manifest and the paths of an
invocation. -/
def Invocation.places (i : Invocation) : List String :=
  let s := i.command.sources
  let configs := match i.config with
    | some path => [path]
    | none => ("." :: i.command.firstPath?.toList).map Config.fileIn
  configs ++ s.manifest.toList ++ s.paths

/-- Does the invocation walk through a directory of the tree? -/
def Invocation.walks (i : Invocation) (tree : FileTree) : Bool :=
  match i.command with
  | .complexity _ => false
  | command =>
    let s := command.sources
    s.manifest.isNone && s.paths.any fun path => tree.isDirectory path

/-- The paths of a listing, one on each line. -/
def listedPaths (listing : ByteArray) : List String :=
  ((Text.splitAt 0x0a listing.toList).filterMap fun line => RawText.text? ⟨line⟩).filter (· ≠ "")

/-- The places at which the modules that a file imports may be found. -/
def importPlaces (o : GraphOptions) (file : SourceFile) : List String :=
  let records := ((Import.inFile? file).getD []).filter o.wants
  let names := (records.map (·.specifier)).filter Resolver.isRelative
  names.flatMap fun name =>
    Resolver.candidates (Resolver.bareExtensions o.extensions) (Resolver.base file.id name)

/-- The places at which the imports of an invocation's source files are looked up. -/
def Invocation.importPlaces (i : Invocation) (tree : FileTree) : List String :=
  match i.command with
  | .graph sources threshold includeDynamic _ =>
    let found : Except Failure (List String) := do
      let config ← configFor tree i
      let loaded ← sources.load tree config
      return loaded.files.flatMap
        (CommandLine.importPlaces (graphOptions config threshold includeDynamic))
    found.toOption.getD []
  | _ => []

end ScriptAtlas.CommandLine
