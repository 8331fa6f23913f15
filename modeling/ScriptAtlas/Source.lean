import ScriptAtlas.Path
import ScriptAtlas.Syntax.Program

/-! # Source files

A source file has an id, which is a path or a key of the archive it comes from, and its content.
The id decides how the content is read. -/

namespace ScriptAtlas

open Syntax

structure SourceFile where
  id : String
  /-- The last part of the id. -/
  displayName : String
  content : String
deriving DecidableEq, Repr, Inhabited

/-- A file under its id. -/
def SourceFile.of (id content : String) : SourceFile := ⟨id, Path.baseName id, content⟩

/-- Does the id end in an extension of files with tags? -/
def hasTags (id : String) : Bool :=
  let name := Text.afterLast '/' id.toList
  let ext := (Text.afterLast '.' name).map Char.toLower
  name.contains '.' && (ext == ['t', 's', 'x'] || ext == ['j', 's', 'x'])

/-- Extensions of files that may be modules or not, as their content shows. -/
def openExtensions : List String := ["js", "jsx", "ts", "tsx"]

/-- Extensions of files that are no modules. -/
def scriptExtensions : List String := ["cjs", "cts"]

/-- How a file with this id is read. What has no known extension is a module. -/
def dialectOf (id : String) : Dialect :=
  let ext := (Path.extension? id).getD ""
  { jsx := hasTags id
    modularity :=
      if openExtensions.contains ext then .byContent
      else if scriptExtensions.contains ext then .script
      else .module }

/-- The tree of a file, if its content can be read. -/
def SourceFile.tree? (file : SourceFile) : Option Node :=
  (parseProgram (dialectOf file.id) file.content).toOption

/-- A piece of code without a file. -/
def SourceFile.snippet (code : String) : SourceFile := .of "snippet.ts" code

end ScriptAtlas
