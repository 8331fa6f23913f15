import ScriptAtlas.Graph.Report
import ScriptAtlas.Loading
import ScriptAtlas.Toml.Reader

/-! # Configuration

Settings from an optional file. Each setting that the file leaves out has its default, and so have all
of them if the file is missing or anything in it is wrong. -/

namespace ScriptAtlas

structure Config where
  graph : GraphOptions := {}
  ignoredDirectories : List String := ["node_modules", ".git", "dist", "build"]
  /-- Named lists of keywords, by name in ascending order. -/
  presets : List (String × List String) := []
deriving DecidableEq, Repr, Inhabited

namespace Config

open Toml

/-! ### Sections -/

/-- How the fields of a section are found: by name, or by position in a list. A date has none. -/
inductive Fields where
  | named (entries : List (String × Value))
  | listed (items : List Value)

/-- The fields of a section that has the given names; other entries must be readable, too. -/
def fieldsOf (names : List String) : Value → Option Fields
  | .table entries =>
    if entries.all fun e => names.contains e.1 || e.2.inRange then some (.named entries) else none
  | .list items => some (.listed items)
  | .datetime => some (.named [])
  | _ => none

/-- A field read by `read`, or its default. -/
def Fields.get {α : Type} (fields : Fields) (name : String) (position : Nat) (default : α)
    (read : Value → Option α) : Option α :=
  let v := match fields with
    | .named entries => find? entries name
    | .listed items => items[position]?
  match v with
  | some v => read v
  | none => some default

/-! ### Values -/

def readText : Value → Option String
  | .text s => some s
  | _ => none

def readTexts : Value → Option (List String)
  | .list items => items.mapM readText
  | _ => none

def readBool : Value → Option Bool
  | .boolean b => some b
  | _ => none

/-- A number of sixty-four bits. -/
def readCount : Value → Option Nat
  | .integer n => if 0 ≤ n && n < Nat.pow 2 64 then some n.toNat else none
  | _ => none

/-- Puts a named list into its place. -/
def insertPreset (p : String × List String) :
    List (String × List String) → List (String × List String)
  | [] => [p]
  | q :: qs => if p.1 < q.1 then p :: q :: qs else q :: insertPreset p qs

def readPresets : Value → Option (List (String × List String))
  | .table entries => do
    let presets ← entries.mapM fun e => do return (e.1, ← readTexts e.2)
    return presets.foldr insertPreset []
  | _ => none

/-! ### Configurations -/

def readGraph (v : Value) : Option GraphOptions := do
  let d : GraphOptions := {}
  let fields ← fieldsOf ["hub_threshold", "extensions", "entry_points", "include_dynamic_imports"] v
  return {
    hubThreshold := ← fields.get "hub_threshold" 0 d.hubThreshold readCount
    extensions := ← fields.get "extensions" 1 d.extensions readTexts
    entryPoints := ← fields.get "entry_points" 2 d.entryPoints readTexts
    includeDynamicImports :=
      ← fields.get "include_dynamic_imports" 3 d.includeDynamicImports readBool }

def readScan (default : List String) (v : Value) : Option (List String) := do
  (← fieldsOf ["ignore_dirs"] v).get "ignore_dirs" 0 default readTexts

def readKeywords (v : Value) : Option (List (String × List String)) := do
  (← fieldsOf ["presets"] v).get "presets" 0 [] readPresets

/-- The configuration of a document. -/
def ofEntries (entries : List (String × Value)) : Option Config := do
  let d : Config := {}
  let fields ← fieldsOf ["graph", "scan", "keywords"] (.table entries)
  return {
    graph := ← fields.get "graph" 0 d.graph readGraph
    ignoredDirectories :=
      ← fields.get "scan" 1 d.ignoredDirectories (readScan d.ignoredDirectories)
    presets := ← fields.get "keywords" 2 d.presets readKeywords }

/-- The configuration in a text. -/
def ofText (text : String) : Config := (((parse text).bind ofEntries).getD {})

/-- The configuration in a file. -/
def load (tree : FileTree) (path : String) : Config :=
  match tree.readText path with
  | .ok text => ofText text
  | .error _ => {}

/-- Where the configuration of a directory is. -/
def fileIn (root : String) : String :=
  (if root = "" || root.toList.getLast? = some '/' then root else root ++ "/") ++
    ".calltrace/config.toml"

/-- The keywords of a preset. -/
def preset? (c : Config) (name : String) : Option (List String) := find? c.presets name

/-- Which files of a directory are source files. -/
def walkOptions (c : Config) : WalkOptions := ⟨c.graph.extensions, c.ignoredDirectories⟩

end Config

end ScriptAtlas
