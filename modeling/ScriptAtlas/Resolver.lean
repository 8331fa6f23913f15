import ScriptAtlas.Path

/-! # Resolution of module names

A relative module name is joined to the directory of the file that mentions it, and then tried as it
stands, with each extension, and as a directory with an index file. The first candidate that
exists is the module. Other names belong to packages and stay unresolved. -/

namespace ScriptAtlas

open ScriptAtlas.Path

structure Resolver where
  /-- Tried in this order, without a leading dot. -/
  extensions : List String
  /-- Does a module exist under this path? -/
  contains : String → Bool

namespace Resolver

/-- Is the name relative to the file that mentions it? -/
def isRelative (specifier : String) : Bool :=
  match specifier.toList with
  | ['.'] | ['.', '.'] | '.' :: '/' :: _ | '.' :: '.' :: '/' :: _ => true
  | _ => false

/-- Extensions without leading dots; what is empty then is left out. -/
def bareExtensions (extensions : List String) : List String :=
  (extensions.map fun e => String.ofList (e.toList.dropWhile (· = '.'))).filter (· ≠ "")

/-- A resolver for some extensions. -/
def of (extensions : List String) (contains : String → Bool) : Resolver :=
  ⟨bareExtensions extensions, contains⟩

/-- The path that a relative name stands for in a file. -/
def base (importer specifier : String) : String :=
  let dir := parent (normalize importer)
  normalize (if dir = "" then specifier else dir ++ "/" ++ specifier)

/-- The index files of a directory. -/
def indexFiles (extensions : List String) (dir : String) : List String :=
  extensions.map fun e => dir ++ "index." ++ e

/-- The paths at which the module may be found, in the order of trial. -/
def candidates (extensions : List String) (base : String) : List String :=
  if base = "" || base = "/" then indexFiles extensions base
  else base :: extensions.map (fun e => base ++ "." ++ e) ++ indexFiles extensions (base ++ "/")

/-- The module that a name stands for in a file. -/
def resolve (r : Resolver) (importer specifier : String) : Option String :=
  if isRelative specifier then
    (candidates r.extensions (base importer specifier)).find? r.contains
  else none

end Resolver

end ScriptAtlas
