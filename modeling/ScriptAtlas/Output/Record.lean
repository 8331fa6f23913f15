import ScriptAtlas.Graph.Report
import ScriptAtlas.Json.Value

/-! # Answers as JSON

The answers as JSON values, and back. A field without a value is left out, and a field that is left
out or null has none. -/

namespace ScriptAtlas

namespace Json

/-! ### Reading values -/

/-- The value of a field; `none` also if it is null. -/
def field? (v : Json) (key : String) : Option Json :=
  match v with
  | .object fields =>
    match fields.find? (·.1 = key) with
    | some (_, .null) | none => none
    | some (_, w) => some w
  | _ => none

def text? : Json → Option String
  | .text s => some s
  | _ => none

def list? : Json → Option (List Json)
  | .list items => some items
  | _ => none

def nat? : Json → Option Nat
  | .number s =>
    if !s.isEmpty && s.toList.all Char.isDigit then
      some (s.toList.foldl (fun n d => n * 10 + (d.toNat - 48)) 0)
    else none
  | _ => none

def isObject : Json → Bool
  | .object _ => true
  | _ => false

/-- A list of values of one kind. -/
def listOf? {α : Type} (read : Json → Option α) (v : Json) : Option (List α) := do
  (← v.list?).mapM read

/-- A field that must be there. -/
def get? {α : Type} (v : Json) (key : String) (read : Json → Option α) : Option α := do
  read (← v.field? key)

/-- A text that may be missing. -/
def optionalText? (v : Json) (key : String) : Option (Option String) :=
  match v.field? key with
  | none => if v.isObject then some none else none
  | some w => w.text?.map some

/-- A field for a text, unless there is none. -/
def optional (key : String) (s : Option String) : List (String × Json) :=
  (s.map fun s => (key, Json.text s)).toList

end Json

open Json

namespace Function

def Named.toJson (f : Named) : Json :=
  .object [("name", .text f.name), ("startOffset", ofNat f.span.start),
    ("endOffset", ofNat f.span.stop), ("sourceFileId", .text f.file)]

def Dependency.toJson (d : Dependency) : Json :=
  .object [("name", .text d.name), ("content", .text d.content), ("file", .text d.file)]

def Dependency.ofJson? (v : Json) : Option Dependency := do
  return ⟨← v.get? "name" text?, ← v.get? "content" text?, ← v.get? "file" text?⟩

def Dependencies.toJson (d : Dependencies) : Json :=
  .object ([("target", (d.target.map .text).getD .null)] ++ optional "targetFile" d.targetFile ++
    [("dependencies", .list (d.dependencies.map (·.toJson)))])

def Dependencies.ofJson? (v : Json) : Option Dependencies := do
  return ⟨← v.optionalText? "target", ← v.optionalText? "targetFile",
    ← v.get? "dependencies" (listOf? Dependency.ofJson?)⟩

def Caller.toJson (c : Caller) : Json :=
  .object ([("name", .text c.name), ("content", .text c.content)] ++ optional "file" c.file)

def Caller.ofJson? (v : Json) : Option Caller := do
  return ⟨← v.get? "name" text?, ← v.get? "content" text?, ← v.optionalText? "file"⟩

def Callers.toJson (c : Callers) : Json :=
  .object [("target", .text c.target), ("callers", .list (c.callers.map (·.toJson)))]

def Callers.ofJson? (v : Json) : Option Callers := do
  return ⟨← v.get? "target" text?, ← v.get? "callers" (listOf? Caller.ofJson?)⟩

def Finding.toJson (f : Finding) : Json :=
  .object ([("functionName", .text f.functionName), ("foundKeywords", texts f.foundKeywords),
    ("content", .text f.content)] ++ optional "file" f.file)

def Finding.ofJson? (v : Json) : Option Finding := do
  return ⟨← v.get? "functionName" text?, wordSet (← v.get? "foundKeywords" (listOf? text?)),
    ← v.get? "content" text?, ← v.optionalText? "file"⟩

def Ranked.toJson (r : Ranked) : Json :=
  .object [("name", .text r.name), ("file", .text r.file), ("complexity", ofNat r.complexity)]

def Ranked.ofJson? (v : Json) : Option Ranked := do
  return ⟨← v.get? "name" text?, ← v.get? "file" text?, ← v.get? "complexity" nat?⟩

end Function

namespace ModuleGraph

def Edge.toJson (e : Edge) : Json := .object [("from", .text e.source), ("to", .text e.target)]

def Edge.ofJson? (v : Json) : Option Edge := do
  return ⟨← v.get? "from" text?, ← v.get? "to" text?⟩

def Hub.toJson (h : Hub) : Json := .object [("id", .text h.id), ("importers", ofNat h.importers)]

def Hub.ofJson? (v : Json) : Option Hub := do
  return ⟨← v.get? "id" text?, ← v.get? "importers" nat?⟩

end ModuleGraph

def GraphReport.toJson (r : GraphReport) : Json :=
  .object [("nodes", texts r.nodes), ("edges", .list (r.edges.map (·.toJson))),
    ("cycles", .list (r.cycles.map texts)), ("hubs", .list (r.hubs.map (·.toJson))),
    ("orphans", texts r.orphans)]

def GraphReport.ofJson? (v : Json) : Option GraphReport := do
  return ⟨← v.get? "nodes" (listOf? text?), ← v.get? "edges" (listOf? ModuleGraph.Edge.ofJson?),
    ← v.get? "cycles" (listOf? (listOf? text?)), ← v.get? "hubs" (listOf? ModuleGraph.Hub.ofJson?),
    ← v.get? "orphans" (listOf? text?)⟩

end ScriptAtlas
