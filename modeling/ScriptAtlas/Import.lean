import ScriptAtlas.Source

/-! # Imports

The module names that a file mentions: imports and re-exports, `import(…)` and `require(…)` with a
literal name. They come in the order of the text, each with the way it is mentioned. -/

namespace ScriptAtlas.Import

open Syntax

/-- How a file mentions another module. -/
inductive Form where
  | static
  | reexport
  | dynamic
  | require
deriving DecidableEq, Repr, Inhabited

/-- Is the module loaded before the file runs? -/
def Form.isStatic : Form → Bool
  | .static | .reexport => true
  | .dynamic | .require => false

/-- One mention of a module. -/
structure Record where
  specifier : String
  form : Form
deriving DecidableEq, Repr, Inhabited

/-- The value of a string literal. -/
def literal? (n : Node) : Option String :=
  match n.kind with
  | .text value => some value
  | _ => none

/-- The name in a call `require("name")`. -/
def required? (n : Node) : Option String :=
  match n.kind, n.children, n.arguments with
  | .call, callee :: _, [argument] =>
    if callee.kind = .identifier "require" then literal? argument else none
  | _, _, _ => none

/-- The records of a possible module name. -/
def recordOf (form : Form) (name : Option String) : List Record :=
  match name with
  | some s => [⟨s, form⟩]
  | none => []

mutual

/-- The modules mentioned in a tree. Of `import(name, options)`, only the name is searched. -/
def inTree : Node → List Record
  | .mk kind span children =>
    match kind with
    | .importFrom source => [⟨source, .static⟩]
    | .exportAll source => [⟨source, .reexport⟩]
    | .exportFrom source => ⟨source, .reexport⟩ :: inTrees children
    | .importCall => inImportCall children
    | _ => recordOf .require (required? (.mk kind span children)) ++ inTrees children

/-- The modules mentioned in the name of `import(name, options)`. -/
def inImportCall : List Node → List Record
  | [] => []
  | name :: _ => recordOf .dynamic (literal? name) ++ inTree name

/-- The modules mentioned in trees. -/
def inTrees : List Node → List Record
  | [] => []
  | n :: ns => inTree n ++ inTrees ns

end

/-- The modules that a file mentions, if it can be read. -/
def inFile? (file : SourceFile) : Option (List Record) := file.tree?.map inTree

end ScriptAtlas.Import
