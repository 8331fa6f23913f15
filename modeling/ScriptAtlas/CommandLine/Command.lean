import ScriptAtlas.CommandLine.Words
import ScriptAtlas.Graph.Report

/-! # Commands

What a command line asks for. Options before and behind the subcommand are read in turn; those that
may stand in both places count where they stand last. -/

namespace ScriptAtlas.CommandLine

/-- Where source files come from. -/
structure Sources where
  paths : List String
  manifest : Option String
deriving DecidableEq, Repr, Inhabited

inductive Command where
  | deps (target : String) (sources : Sources)
  | callers (target : String) (sources : Sources)
  | keywords (keywords : List String) (preset : Option String) (inputs : List String)
      (manifest : Option String)
  | graph (sources : Sources) (hubThreshold : Option Nat) (includeDynamic : Bool)
      (mode : Option Addressing)
  | complexity (file : String)
  | hotspots (sources : Sources) (top : Nat)
deriving DecidableEq, Repr, Inhabited

/-- A whole command line. -/
structure Invocation where
  json : Bool
  logLevel : String
  config : Option String
  command : Command
deriving DecidableEq, Repr, Inhabited

/-! ### Layouts -/

/-- The options that may stand before and behind the subcommand. -/
def globalOptions : List Parameter :=
  [{ name := "json", arity := .none }, { name := "log-level" }, { name := "config", kind := .path }]

def manifestOption : Parameter := { name := "manifest", kind := .path }

def pathsPosition : Parameter := { name := "paths", arity := .many, kind := .path }

def targetPosition : Parameter := { name := "target" }

/-- The layout behind each subcommand. -/
def layoutOf? (subcommand : String) : Option Layout :=
  match subcommand with
  | "deps" | "callers" =>
    some { options := manifestOption :: globalOptions, positions := [targetPosition, pathsPosition] }
  | "keywords" =>
    some {
      options :=
        { name := "preset" } :: { name := "in", arity := .many, kind := .path } ::
          manifestOption :: globalOptions
      positions := [{ name := "keywords", arity := .many }] }
  | "graph" =>
    some {
      options :=
        manifestOption :: { name := "hub-threshold", kind := .count } ::
          { name := "include-dynamic", arity := .none } ::
          { name := "mode", kind := .oneOf ["filesystem", "virtual"] } :: globalOptions
      positions := [pathsPosition] }
  | "complexity" =>
    some { options := globalOptions, positions := [{ name := "file", kind := .path }] }
  | "hotspots" =>
    some {
      options := manifestOption :: { name := "top", kind := .count } :: globalOptions
      positions := [pathsPosition] }
  | _ => none

def subcommands : List String := ["deps", "callers", "keywords", "graph", "complexity", "hotspots"]

/-- The layout before the subcommand. -/
def topLayout : Layout :=
  { options := globalOptions, subcommands := subcommands ++ ["help"], hasVersion := true }

/-! ### Checks -/

/-- The first value of a parameter. -/
def Progress.value? (p : Progress) (name : String) : Option String := (p.values name).head?

/-- Fails if both parameters occur. -/
def conflict (p : Progress) (a b : String) : Except UsageError Unit :=
  if p.has a && p.has b then .error .argumentConflict else .ok ()

/-- The value of a parameter that must occur. -/
def require (p : Progress) (name : String) : Except UsageError String :=
  match p.value? name with
  | some v => .ok v
  | none => .error .missingRequired

/-- Where the source files come from: paths or a manifest, and the working directory if neither is
given. -/
def sourcesOf (p : Progress) : Sources :=
  ⟨if p.has "paths" then p.values "paths" else ["."], p.value? "manifest"⟩

def addressingOf? (s : String) : Option Addressing :=
  if s = "virtual" then some .virtual else if s = "filesystem" then some .filesystem else none

/-- The command that the words behind a subcommand make. -/
def commandOf (subcommand : String) (p : Progress) : Except UsageError Command := do
  conflict p "paths" "manifest"
  conflict p "in" "manifest"
  match subcommand with
  | "deps" => return .deps (← require p "target") (sourcesOf p)
  | "callers" => return .callers (← require p "target") (sourcesOf p)
  | "keywords" =>
    unless p.has "preset" do discard <| require p "keywords"
    return .keywords (p.values "keywords") (p.value? "preset") (p.values "in")
      (p.value? "manifest")
  | "graph" =>
    return .graph (sourcesOf p) ((p.value? "hub-threshold").bind count?) (p.has "include-dynamic")
      ((p.value? "mode").bind addressingOf?)
  | "complexity" => return .complexity (← require p "file")
  | _ => return .hotspots (sourcesOf p) (((p.value? "top").bind count?).getD 10)

/-! ### Command lines -/

/-- What `help` with these words asks for. -/
def helpError (words : List String) : UsageError :=
  match words with
  | [] => .help
  | [w] => if topLayout.subcommands.contains w then .help else .invalidSubcommand
  | _ => .invalidSubcommand

/-- The invocation that a command line makes. -/
def parse (args : List String) : Except UsageError Invocation := do
  match ← Progress.words {} topLayout args with
  | (top, none) =>
    let top ← top.settle
    throw (if top.done.isEmpty then .helpForNothing else .missingSubcommand)
  | (top, some (subcommand, rest)) =>
    match layoutOf? subcommand with
    | none => throw (helpError rest)
    | some layout =>
      let (inner, _) ← Progress.words {} layout rest
      let inner ← inner.settle
      let command ← commandOf subcommand inner
      let top ← top.settle
      let value? (name : String) : Option String := (inner.value? name).or (top.value? name)
      return {
        json := inner.has "json" || top.has "json"
        logLevel := (value? "log-level").getD "warn"
        config := value? "config"
        command }

end ScriptAtlas.CommandLine
