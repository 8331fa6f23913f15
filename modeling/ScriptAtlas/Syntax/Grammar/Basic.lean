import ScriptAtlas.Syntax.Tree
import ScriptAtlas.Syntax.Scan

/-! # Parsers over tokens

A rule of the grammar is a `Parser`: it reads the token under the cursor, moves on and builds
nodes. A token that no rule takes is a `SyntaxError`, and the whole text is refused, unless the
rule ran under `attempt`, which puts the cursor back.

Rules do not call each other in circles. A rule that needs another asks for a `Goal`, and the
environment answers it; the circle is closed once, in `Program`, with a bound on the depth. -/

namespace ScriptAtlas.Syntax

/-- The text cannot be read on at this offset. -/
structure SyntaxError where
  offset : Nat
deriving DecidableEq, Repr, Inhabited

/-- What a rule may ask for. -/
inductive Goal where
  /-- An expression, commas included. -/
  | expression
  /-- An expression without commas; `true` if an arrow function in it may have a result type
  without a colon behind its body. -/
  | assignment (arrowResult : Bool)
  /-- Operators that bind tighter than `level`. -/
  | binary (level : Nat)
  | unary
  /-- Atoms with members and calls. -/
  | leftSide
  | atom
  | type
  | binding
  /-- A statement; `nested` if it is the body of another one. -/
  | statement (nested : Bool)
  /-- An element between angle brackets; `inside` if it is the child of another one. -/
  | tag (inside : Bool)
deriving DecidableEq, Repr, Inhabited

/-- What the surroundings of an expression or a type allow. -/
structure Context where
  /-- May `in` be an operator? -/
  allowIn : Bool := true
  inYield : Bool := false
  inAwait : Bool := false
  /-- In a decorator, `[` belongs to the member behind it. -/
  inDecorator : Bool := false
  /-- Is `extends` in a type the end of it? -/
  plainTypes : Bool := false
deriving DecidableEq, Repr, Inhabited

/-- The token to be read next, with the text around it and the end of the token before. -/
structure Cursor where
  scanned : Scanned
  prevStop : Nat

/-- What a rule may look at, besides the cursor. -/
structure Env where
  dialect : Dialect
  context : Context
  /-- More rounds than this no list or chain in the text can have. -/
  rounds : Nat
  answer : Context → Goal → Cursor → Except SyntaxError (Node × Cursor)

abbrev Parser := ReaderT Env (StateT Cursor (Except SyntaxError))

/-! ### The cursor -/

def token : Parser Token := return (← get).scanned.token

def tokenStart : Parser Nat := return (← get).scanned.token.start

/-- Refuses the token under the cursor. -/
def unexpected {α : Type} : Parser α := do throw ⟨← tokenStart⟩

/-- Moves past the token; the next one is read by `next` from its offset and text. -/
def advanceBy (next : Nat → List Char → Scanned) : Parser Unit :=
  modify fun c =>
    let s := next c.scanned.token.stop c.scanned.after
    ⟨{ s with flawed := c.scanned.flawed || s.flawed }, c.scanned.token.stop⟩

/-- Moves to the next token. -/
def advance : Parser Unit := do
  let d := (← read).dialect
  advanceBy (scan d false)

/-- Reads the token under the cursor again, in another way. -/
def reread (again : Scanned → Scanned) : Parser Unit :=
  modify fun c => { c with scanned := again c.scanned }

/-- Is the token the punctuator `m`? -/
def sees (m : String) : Parser Bool := return (← token).lexeme = .mark m

/-- Is the token the word `w`? -/
def seesWord (w : String) : Parser Bool := return (← token).lexeme = .word w

/-- Is the token one of the punctuators `ms`? -/
def seesAny (ms : List String) : Parser Bool := do
  let t ← token
  return ms.any fun m => t.lexeme = .mark m

/-- Is the token one of the words `ws`? -/
def seesAnyWord (ws : List String) : Parser Bool := do
  let t ← token
  return ws.any fun w => t.lexeme = .word w

def seesEnding : Parser Bool := return (← token).isEnding

/-- Does the token stand on a new line? -/
def onNewLine : Parser Bool := return (← token).newline

/-- Moves past the punctuator `m` if it is there. -/
def eat (m : String) : Parser Bool := do
  if ← sees m then
    advance
    return true
  else return false

/-- Moves past the word `w` if it is there. -/
def eatWord (w : String) : Parser Bool := do
  if ← seesWord w then
    advance
    return true
  else return false

def expect (m : String) : Parser Unit := do
  unless ← eat m do unexpected

def expectWord (w : String) : Parser Unit := do
  unless ← eatWord w do unexpected

/-- May a statement end here without a semicolon? -/
def canEndStatement : Parser Bool := do
  let t ← token
  return t.newline || t.isEnding || t.lexeme = .mark ";" || t.lexeme = .mark "\x7d"

/-- The end of a statement. -/
def endStatement : Parser Unit := do
  unless ← eat ";" do
    unless ← canEndStatement do unexpected

/-! ### Choice and repetition -/

/-- Runs `p`, and takes the cursor back if it fails. -/
def attempt {α : Type} (p : Parser α) : Parser (Option α) := fun env c =>
  match p env c with
  | .ok (a, c') => .ok (some a, c')
  | .error _ => .ok (none, c)

/-- Runs `p` and takes the cursor back; a failure counts as `false`. -/
def ahead (p : Parser Bool) : Parser Bool := fun env c =>
  match p env c with
  | .ok (a, _) => .ok (a, c)
  | .error _ => .ok (false, c)

/-- Runs `p` and takes the cursor back. -/
def peek {α : Type} (p : Parser α) : Parser α := fun env c =>
  match p env c with
  | .ok (a, _) => .ok (a, c)
  | .error e => .error e

/-- Looks at the token after the one under the cursor. -/
def nextToken : Parser Token := peek do
  advance
  token

/-- Repeats `step` until it has no next value, at most `n` times. -/
def iterateFor {σ : Type} (step : σ → Parser (Option σ)) : Nat → σ → Parser σ
  | 0, _ => unexpected
  | n + 1, s => do
    match ← step s with
    | some s' => iterateFor step n s'
    | none => return s

/-- Repeats `step` until it has no next value. -/
def iterate {σ : Type} (step : σ → Parser (Option σ)) (s : σ) : Parser σ := do
  iterateFor step (← read).rounds s

/-- Collects what `item` gives until it gives nothing. -/
def many {α : Type} (item : Parser (Option α)) : Parser (List α) := do
  let found ← iterate (fun acc => return (← item).map (· :: acc)) []
  return found.reverse

/-- Items up to the mark `close`, which stays under the cursor. -/
def manyUntil {α : Type} (close : String) (item : Parser α) : Parser (List α) :=
  many do if (← sees close) || (← seesEnding) then return none else some <$> item

/-- Items with commas between them, up to the mark `close`, which stays under the cursor. A comma
may stand behind the last one. -/
def commaList {α : Type} (close : String) (item : Parser α) : Parser (List α) := do
  if ← sees close then return []
  let first ← item
  let rest ← many do
    if ← sees close then return none
    expect ","
    if ← sees close then return none
    some <$> item
  return first :: rest

/-! ### Goals, context and nodes -/

/-- Asks the environment for `g`. -/
def parse (g : Goal) : Parser Node := fun env c => env.answer env.context g c

/-- Runs `p` in another context. -/
def within {α : Type} (change : Context → Context) (p : Parser α) : Parser α :=
  withReader (fun env => { env with context := change env.context }) p

def context : Parser Context := return (← read).context

/-- Is the token a word that can refer to a variable or a label here? -/
def seesReference : Parser Bool := do
  let t ← token
  let c ← context
  return t.isName && !(c.inAwait && t.word == "await") && !(c.inYield && t.word == "yield")

/-- Allows `in` as an operator, and gives `[` its usual meaning. -/
def bracketed {α : Type} (p : Parser α) : Parser α :=
  within (fun c => { c with allowIn := true, inDecorator := false }) p

def parseAssignment : Parser Node := parse (.assignment true)

/-- A node from `start` to the end of the last token. -/
def node (kind : Kind) (start : Nat) (children : List Node) : Parser Node :=
  return .mk kind ⟨start, (← get).prevStop⟩ children

/-- A node for the token under the cursor alone. -/
def tokenNode (kind : Kind) : Parser Node := do
  let start ← tokenStart
  advance
  node kind start []

end ScriptAtlas.Syntax
