import ScriptAtlas.Function.Index
import ScriptAtlas.Text.Blank

/-! # Questions about functions

What a function calls, who calls it, which functions mention given words, and how complex they
are. A question about no files, or with an empty name or word list, is refused. -/

namespace ScriptAtlas

/-- Why a question is refused. -/
inductive QueryError where
  | noFiles
  | noTarget
  | noKeywords
deriving DecidableEq, Repr, Inhabited

def QueryError.message : QueryError → String
  | .noFiles => "no source files supplied, nothing to analyze"
  | .noTarget => "target function name must not be empty"
  | .noKeywords => "keyword list is empty after trimming blank entries"

namespace Function

/-- The trimmed name of the function asked for. -/
def target (name : String) : Except QueryError String :=
  let t := Text.trim name
  if t = "" then .error .noTarget else .ok t

def requireFiles (files : List SourceFile) : Except QueryError Unit :=
  if files.isEmpty then .error .noFiles else .ok ()

/-! ### Dependencies -/

/-- A function that the target calls. -/
structure Dependency where
  name : String
  content : String
  file : String
deriving DecidableEq, Repr, Inhabited

/-- The target with its file, if it is found, and what it calls. -/
structure Dependencies where
  target : Option String
  targetFile : Option String
  dependencies : List Dependency
deriving DecidableEq, Repr, Inhabited

/-- The functions of `fs` that are called, one for each name; the names in `seen` are left out. -/
def calledBy (calls seen : List String) : List Named → List Dependency
  | [] => []
  | f :: fs =>
    if calls.contains f.name && !seen.contains f.name then
      ⟨f.name, f.content, f.file⟩ :: calledBy calls (f.name :: seen) fs
    else calledBy calls seen fs

/-- How far the files were read in search of a function. -/
structure Search where
  /-- One for each file read; `none` if the file cannot be read. -/
  indexes : List (Option Index)
  found : Option Named

/-- Reads files in order, up to the first that has a function named `t`. -/
def searchTarget (read : SourceFile → Option Index) (t : String) : List SourceFile → Search
  | [] => ⟨[], none⟩
  | file :: files =>
    let index := read file
    match index.bind fun i => (i.named file).find? (·.name = t) with
    | some f => ⟨[index], some f⟩
    | none =>
      let rest := searchTarget read t files
      { rest with indexes := index :: rest.indexes }

/-- The named functions of files, by the indexes made from them. -/
def namedByIndexes (files : List SourceFile) (indexes : List (Option Index)) : List Named :=
  (files.zip indexes).flatMap fun (file, index) => (index.map (·.named file)).getD []

/-- The first function named `name` and the functions it calls, itself left out. The files behind
the one it stands in are read only when it is found. -/
def dependencies (files : List SourceFile) (name : String) : Except QueryError Dependencies := do
  requireFiles files
  let t ← target name
  let search := searchTarget Index.ofFile? t files
  match search.found with
  | none => return ⟨none, none, []⟩
  | some f =>
    let indexes := search.indexes ++ (files.drop search.indexes.length).map Index.ofFile?
    return ⟨some f.content, some f.file, calledBy f.calls [t] (namedByIndexes files indexes)⟩

/-! ### Callers -/

/-- A function that calls the target; the file is given if there are several. -/
structure Caller where
  name : String
  content : String
  file : Option String
deriving DecidableEq, Repr, Inhabited

structure Callers where
  target : String
  callers : List Caller
deriving DecidableEq, Repr, Inhabited

/-- The named functions that are innermost around a call of `t`, in the order of the calls. -/
def callersIn (t : String) (file : SourceFile) : List Named :=
  match Index.ofFile? file with
  | some index =>
    (index.sites.toList.filter (·.callee = t)).filterMap fun site => do
      let i ← site.enclosing
      let e ← index.functions[i]?
      Named.of? file e
  | none => []

/-- The first function of each name. -/
def firstByName (seen : List String) : List Named → List Named
  | [] => []
  | f :: fs =>
    if seen.contains f.name then firstByName seen fs
    else f :: firstByName (f.name :: seen) fs

/-- The callers of a function in several files. -/
def callers (files : List SourceFile) (name : String) : Except QueryError Callers := do
  requireFiles files
  let t ← target name
  let found := firstByName [] (files.flatMap (callersIn t))
  return ⟨t, found.map fun f => ⟨f.name, f.content, some f.file⟩⟩

/-- The callers of a function in a piece of code. -/
def callersInCode (code name : String) : Except QueryError Callers := do
  let t ← target name
  let found := firstByName [] (callersIn t (.snippet code))
  return ⟨t, found.map fun f => ⟨f.name, f.content, none⟩⟩

/-! ### Keywords -/

/-- A function that mentions keywords. -/
structure Finding where
  functionName : String
  /-- In ascending order, each once. -/
  foundKeywords : List String
  content : String
  file : Option String
deriving DecidableEq, Repr, Inhabited

/-- Puts a word into an ascending list, unless it is there. -/
def insertWord (w : String) : List String → List String
  | [] => [w]
  | v :: vs => if w = v then v :: vs else if w < v then w :: v :: vs else v :: insertWord w vs

/-- The words in ascending order, each once. -/
def wordSet (ws : List String) : List String := ws.foldr insertWord []

/-- The keywords that are not blank, trimmed. -/
def keywords (ws : List String) : Except QueryError (List String) :=
  match (ws.map Text.trim).filter (· ≠ "") with
  | [] => .error .noKeywords
  | ks => .ok ks

/-- The keywords that occur in a function, if any do. -/
def finding? (ks : List String) (inFiles : Bool) (f : Named) : Option Finding :=
  match wordSet (ks.filter fun k => Text.occursIn k.toList f.content.toList) with
  | [] => none
  | found => some ⟨f.name, found, f.content, if inFiles then some f.file else none⟩

/-- The functions of several files that mention a keyword. -/
def keywordFindings (files : List SourceFile) (ws : List String) :
    Except QueryError (List Finding) := do
  requireFiles files
  let ks ← keywords ws
  return (namedInAll files).filterMap (finding? ks true)

/-- The functions of a piece of code that mention a keyword. -/
def keywordFindingsInCode (code : String) (ws : List String) :
    Except QueryError (List Finding) := do
  let ks ← keywords ws
  return (namedIn (.snippet code)).filterMap (finding? ks false)

/-! ### Complexity -/

mutual

/-- The number of decisions in a tree. -/
def decisions : Syntax.Node → Nat
  | .mk kind _ children => (if kind = .decision then 1 else 0) + decisionsInAll children

def decisionsInAll : List Syntax.Node → Nat
  | [] => 0
  | n :: ns => decisions n + decisionsInAll ns

end

/-- A tenth of the number of lines, halves rounded up, and at least one. -/
def lineEstimate (code : String) : Nat := max 1 (((Text.lines code.toList).length + 5) / 10)

/-- The complexity of a piece of code; where it cannot be read, an estimate by its length. -/
def complexityOfCode (code : String) : Nat :=
  match (SourceFile.snippet code).tree? with
  | some tree => 1 + decisions tree
  | none => lineEstimate code

/-- A function with its complexity. -/
structure Ranked where
  name : String
  file : String
  complexity : Nat
deriving DecidableEq, Repr, Inhabited

/-- The named functions, the most complex first; equals keep their order. -/
def ranking (files : List SourceFile) : List Ranked :=
  ((namedInAll files).map fun f => ⟨f.name, f.file, f.complexity⟩).mergeSort
    fun a b => b.complexity ≤ a.complexity

end Function

end ScriptAtlas
