/-! # Words of a command line

The words of a command line sorted into options and positional values, by a layout that says which
there are. Values are checked once all words of an occurrence are known, which is when the next option
or another positional value begins, or when the words end. -/

namespace ScriptAtlas.CommandLine

/-- Why a command line is not carried out. -/
inductive UsageError where
  | help
  | version
  | helpForNothing
  | missingSubcommand
  | invalidSubcommand
  | unknownArgument
  | invalidValue
  | valueValidation
  | argumentConflict
  | missingRequired
  | tooManyValues
deriving DecidableEq, Repr, Inhabited

/-- How many values an option or position takes. -/
inductive Arity where
  | none
  | one
  | many
deriving DecidableEq, Repr, Inhabited

/-- What a value has to be. -/
inductive ValueKind where
  | anything
  /-- Not empty. -/
  | path
  /-- A number of sixty-four bits. -/
  | count
  | oneOf (words : List String)
deriving DecidableEq, Repr, Inhabited

/-- A number of sixty-four bits, a plus sign in front or not. -/
def count? (s : String) : Option Nat :=
  let digits := match s.toList with
    | '+' :: cs => cs
    | cs => cs
  let n := digits.foldl (fun n d => n * 10 + (d.toNat - 48)) 0
  if !digits.isEmpty && digits.all Char.isDigit && n < Nat.pow 2 64 then some n else none

/-- What is wrong with a value. -/
def ValueKind.fault? (k : ValueKind) (s : String) : Option UsageError :=
  match k with
  | .anything => none
  | .path => if s = "" then some .invalidValue else none
  | .count => if (count? s).isNone then some .valueValidation else none
  | .oneOf words => if words.contains s then none else some .invalidValue

/-- An option, by its name without dashes, or a position. -/
structure Parameter where
  name : String
  arity : Arity := .one
  kind : ValueKind := .anything
deriving DecidableEq, Repr, Inhabited

/-- What a command line may hold. -/
structure Layout where
  options : List Parameter
  positions : List Parameter := []
  subcommands : List String := []
  /-- May the version be asked for? -/
  hasVersion : Bool := false
deriving Repr, Inhabited

/-- The values given for one parameter at one place. -/
structure Occurrence where
  parameter : Parameter
  values : List String
deriving DecidableEq, Repr, Inhabited

/-- What has been read of a command line. -/
structure Progress where
  done : List Occurrence := []
  /-- An occurrence whose values are not checked yet. -/
  pending : Option Occurrence := none
  /-- May the next word be a value of the pending option? -/
  expecting : Bool := false
  /-- The number of positions that are filled. -/
  filled : Nat := 0
  /-- Are all further words positional values? -/
  escaped : Bool := false
deriving Repr, Inhabited

namespace Progress

/-- The values of a parameter, of all its occurrences. -/
def values (p : Progress) (name : String) : List String :=
  (p.done.filter (·.parameter.name = name)).flatMap (·.values)

/-- Does a parameter occur? -/
def has (p : Progress) (name : String) : Bool := p.done.any (·.parameter.name = name)

/-- Checks an occurrence and adds it. Only a parameter of many values may occur again. -/
def accept (p : Progress) (o : Occurrence) : Except UsageError Progress := do
  if o.parameter.arity ≠ .none && o.values.isEmpty then throw .invalidValue
  if o.parameter.arity ≠ .many && p.has o.parameter.name then throw .argumentConflict
  if let some fault := o.values.findSome? o.parameter.kind.fault? then throw fault
  return { p with done := p.done ++ [o] }

/-- Checks the pending occurrence. -/
def settle (p : Progress) : Except UsageError Progress :=
  match p.pending with
  | some o => Progress.accept { p with pending := none, expecting := false } o
  | none => .ok { p with expecting := false }

/-- Takes an option, with the value attached to it or not. -/
def option (p : Progress) (layout : Layout) (name : String) (attached : Option String) :
    Except UsageError Progress := do
  if name = "help" || (layout.hasVersion && name = "version") then
    if attached.isSome then throw .tooManyValues
    let _ ← p.settle
    throw (if name = "help" then .help else .version)
  match layout.options.find? (·.name = name) with
  | none => throw .unknownArgument
  | some o =>
    match o.arity, attached with
    | .none, some _ => throw .tooManyValues
    | .none, none => (← p.settle).accept ⟨o, []⟩
    | _, some v => (← p.settle).accept ⟨o, [v]⟩
    | _, none => return { ← p.settle with pending := some ⟨o, []⟩, expecting := true }

/-- Takes a word as a value of the pending option. -/
def addValue (p : Progress) (w : String) : Progress :=
  match p.pending with
  | some o =>
    { p with
      pending := some { o with values := o.values ++ [w] }
      expecting := o.parameter.arity = .many }
  | none => p

/-- Takes a word as a positional value. -/
def positional (p : Progress) (layout : Layout) (w : String) : Except UsageError Progress := do
  match layout.positions[p.filled]? with
  | none =>
    if layout.subcommands.isEmpty || (p.escaped && layout.subcommands.contains w) then
      throw .unknownArgument
    else throw .invalidSubcommand
  | some o =>
    match p.pending with
    | some ⟨q, values⟩ =>
      if q = o && o.arity = .many then
        return { p with pending := some ⟨o, values ++ [w]⟩ }
    | none => pure ()
    let p ← p.settle
    return { p with
      pending := some ⟨o, [w]⟩
      filled := if o.arity = .many then p.filled else p.filled + 1 }

/-- The name and the attached value of a long option. -/
def splitLong (cs : List Char) : String × Option String :=
  let name := String.ofList (cs.takeWhile (· ≠ '='))
  match cs.dropWhile (· ≠ '=') with
  | _ :: v => (name, some (String.ofList v))
  | [] => (name, none)

/-- Takes one word. -/
def word (p : Progress) (layout : Layout) (w : String) : Except UsageError Progress := do
  if p.escaped then return ← p.positional layout w
  match w.toList with
  | ['-', '-'] => return { p with escaped := true, expecting := false }
  | '-' :: '-' :: cs =>
    let (name, attached) := splitLong cs
    p.option layout name attached
  | '-' :: c :: _ =>
    if c = 'h' then p.option layout "help" none
    else if c = 'V' && layout.hasVersion then p.option layout "version" none
    else throw .unknownArgument
  | _ => if p.expecting then return p.addValue w else p.positional layout w

/-- Takes words until they end or a subcommand comes. -/
def words (p : Progress) (layout : Layout) :
    List String → Except UsageError (Progress × Option (String × List String))
  | [] => .ok (p, none)
  | w :: ws =>
    if !p.escaped && !p.expecting && layout.subcommands.contains w then .ok (p, some (w, ws))
    else do words (← p.word layout w) layout ws

end Progress

end ScriptAtlas.CommandLine
