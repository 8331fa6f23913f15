import ScriptAtlas.Graph.Basic
import ScriptAtlas.Text.Blank
import ScriptAtlas.Text.CaseFold
import ScriptAtlas.Text.Slice

/-! # Importers, hubs and orphans

How often a module is imported by others: a hub by many, an orphan by none although it imports
others itself. Modules whose names mark them as entry points are no orphans. -/

namespace ScriptAtlas

/-! ### Entry points -/

namespace EntryPoint

/-- The part of an id behind its last slash or backslash. -/
def baseChars (id : String) : List Char :=
  Text.afterLast '\\' (Text.afterLast '/' id.toList)

/-- Is `base` the stem, or the stem with an extension? Letter case does not count. -/
def matchesStem (base stem : List Char) : Bool :=
  Text.sameFolded (base.take stem.length) stem &&
    match base.drop stem.length with
    | [] => true
    | c :: rest => c == '.' && !rest.isEmpty

/-- Is the module an entry point by one of the stems? Blank stems match nothing. -/
def accepts (stems : List String) (id : String) : Bool :=
  ((stems.map fun s => Text.trimChars s.toList).filter (!·.isEmpty)).any (matchesStem (baseChars id))

/-- The stems of entry points if none are given. -/
def defaultStems : List String := ["index", "main", "app"]

end EntryPoint

namespace ModuleGraph

/-! ### Hubs -/

/-- The modules that import `id`, itself left out. -/
def importers (g : ModuleGraph) (id : String) : List String :=
  (g.entries.filter fun e => e.id ≠ id && e.targets.contains id).map (·.id)

structure Hub where
  id : String
  importers : Nat
deriving DecidableEq, Repr, Inhabited

/-- The modules with at least `threshold` importers, and at least one; the most imported first, and
otherwise in the order in which they turn up. -/
def hubs (g : ModuleGraph) (threshold : Nat) : List Hub :=
  ((g.nodes.map fun id => (⟨id, (g.importers id).length⟩ : Hub)).filter
    fun h => max threshold 1 ≤ h.importers).mergeSort fun a b => b.importers ≤ a.importers

/-! ### Orphans -/

/-- The modules that import another one and are imported by none, entry points left out. -/
def orphans (g : ModuleGraph) (stems : List String) : List String :=
  (g.entries.filter fun e =>
    e.targets.any (· ≠ e.id) && (g.importers e.id).isEmpty && !EntryPoint.accepts stems e.id).map
      (·.id)

end ModuleGraph

end ScriptAtlas
