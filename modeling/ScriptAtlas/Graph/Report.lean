import ScriptAtlas.FileTree
import ScriptAtlas.Function.Query
import ScriptAtlas.Graph.Cycle
import ScriptAtlas.Graph.Importer
import ScriptAtlas.Import
import ScriptAtlas.Resolver

/-! # Reports on the imports of a project

The module graph of some files, and what is worth knowing about it. Ids are brought to canonical
form, so that files under different spellings of one path are one module. A file that cannot be
read is a module only if some file imports it, or if another file under its id can be read. -/

namespace ScriptAtlas

/-- Where modules are looked up: among the files at hand, or in a file tree. -/
inductive Addressing where
  | virtual
  | filesystem
deriving DecidableEq, Repr, Inhabited

/-- What a report depends on besides the files. -/
structure GraphOptions where
  hubThreshold : Nat := 5
  extensions : List String := ["ts", "tsx", "js", "jsx", "mjs", "cjs"]
  entryPoints : List String := EntryPoint.defaultStems
  includeDynamicImports : Bool := false
deriving DecidableEq, Repr, Inhabited

/-- Does the mention of a module count as an import? -/
def GraphOptions.wants (o : GraphOptions) (r : Import.Record) : Bool :=
  r.form.isStatic || o.includeDynamicImports

/-- The resolver for some files. -/
def resolverFor (tree : FileTree) (files : List SourceFile) (mode : Addressing)
    (extensions : List String) : Resolver :=
  match mode with
  | .virtual =>
    let ids := files.map fun f => Path.normalize f.id
    .of extensions ids.contains
  | .filesystem => .of extensions fun path => tree.isFile path

/-- A file's module with the modules it imports, if the file can be read. -/
def moduleOf? (r : Resolver) (o : GraphOptions) (file : SourceFile) :
    Option (String × List String) :=
  (Import.inFile? file).map fun records =>
    let id := Path.normalize file.id
    (id, (records.filter o.wants).filterMap fun m => r.resolve id m.specifier)

/-- The module graph of some files. -/
def moduleGraph (tree : FileTree) (files : List SourceFile) (mode : Addressing)
    (o : GraphOptions) : ModuleGraph :=
  let r := resolverFor tree files mode o.extensions
  (ModuleGraph.ofList (files.filterMap (moduleOf? r o))).close

/-- What is worth knowing about a module graph. -/
structure GraphReport where
  nodes : List String
  edges : List ModuleGraph.Edge
  cycles : List (List String)
  hubs : List ModuleGraph.Hub
  orphans : List String
deriving DecidableEq, Repr, Inhabited

/-- The report on a graph. -/
def ModuleGraph.report (g : ModuleGraph) (threshold : Nat) (stems : List String) : GraphReport :=
  ⟨g.keys, g.edges, Cycle.cycles g, g.hubs threshold, g.orphans stems⟩

/-- The report on the module graph of some files. The stems of entry points stand for themselves, so
that any stems make a pattern. One that is too large to be matched would be given up for the default
stems; there is no such limit here. -/
def graphReport (tree : FileTree) (files : List SourceFile) (mode : Addressing)
    (o : GraphOptions) : Except QueryError GraphReport := do
  Function.requireFiles files
  return (moduleGraph tree files mode o).report o.hubThreshold o.entryPoints

end ScriptAtlas
