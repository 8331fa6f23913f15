import ScriptAtlas.Syntax.Grammar.Expression
import ScriptAtlas.Syntax.Grammar.Module

/-! # Statements

Statements by their first word. Loops, `if` and the cases of `switch` that test a value are
`decision` nodes. -/

namespace ScriptAtlas.Syntax

/-- `(expression)` -/
def condition : Parser Node := do
  expect "("
  let e ← parse .expression
  expect ")"
  return e

/-- The body of a loop, of `if` and the like. -/
def body : Parser Node := parse (.statement true)

def ifStatement : Parser Node := do
  let start ← tokenStart
  advance
  let test ← condition
  let yes ← body
  let no ← if ← eatWord "else" then pure [← body] else pure []
  node .decision start (test :: yes :: no)

def whileStatement : Parser Node := do
  let start ← tokenStart
  advance
  let test ← condition
  node .decision start [test, ← body]

def doWhileStatement : Parser Node := do
  let start ← tokenStart
  advance
  let repeated ← body
  expectWord "while"
  let test ← condition
  discard <| eat ";"
  node .decision start [repeated, test]

def withStatement : Parser Node := do
  let start ← tokenStart
  advance
  let object ← condition
  node .plain start [object, ← body]

/-! ### `for` -/

/-- `; test; update) body` -/
def forTail (start : Nat) (init : List Node) : Parser Node := do
  expect ";"
  let test ← if ← seesAny [";", ")"] then pure [] else pure [← bracketed (parse .expression)]
  expect ";"
  let step ← if ← sees ")" then pure [] else pure [← bracketed (parse .expression)]
  expect ")"
  node .decision start (init ++ test ++ step ++ [← body])

/-- `in expression) body` or `of expression) body` -/
def forEachTail (start : Nat) (target : Node) : Parser Node := do
  let isIn ← seesWord "in"
  advance
  let collection ← bracketed (if isIn then parse .expression else parseAssignment)
  expect ")"
  node .decision start [target, collection, ← body]

/-- Is the token `in` or `of`? -/
def seesEach : Parser Bool := seesAnyWord ["in", "of"]

/-- Is `of` behind `using` the name of a variable? -/
def declaresOf : Parser Bool := ahead do
  advance
  advance
  seesAny ["=", ";", ":"]

/-- Does the head of the loop declare variables? `let` and `using` may be names. -/
def seesForDeclaration : Parser Bool := do
  if ← seesAnyWord ["var", "const"] then return true
  if ← seesWord "let" then
    let t ← nextToken
    return (t.isWord && t.word != "in") || t.lexeme = .mark "\x7b" || t.lexeme = .mark "["
  if ← seesWord "using" then
    return (← seesUsing) && (!(← seesPair "using" "of") || (← declaresOf))
  seesAwaitUsing

def forStatement : Parser Node := do
  let start ← tokenStart
  advance
  discard <| eatWord "await"
  expect "("
  if ← sees ";" then return ← forTail start []
  let initStart ← tokenStart
  if ← seesForDeclaration then
    let init ← within (fun c => { c with allowIn := false }) do
      discard <| eatWord "await"
      advance
      declarators initStart
    if ← seesEach then forEachTail start init else forTail start [init]
  else
    let init ← within (fun c => { c with allowIn := false }) (parse .expression)
    if ← seesEach then
      match init.asTarget? with
      | some target => forEachTail start target
      | none => throw ⟨initStart⟩
    else forTail start [init]

/-! ### Jumps, `switch`, `try` -/

/-- `break` and `continue`, with a label or not. -/
def jumpStatement : Parser Node := do
  let start ← tokenStart
  advance
  unless ← canEndStatement do
    unless ← seesReference do unexpected
    advance
  endStatement
  node .plain start []

def returnStatement : Parser Node := do
  let start ← tokenStart
  advance
  if (← eat ";") || (← canEndStatement) then node .plain start []
  else
    let e ← within (fun c => { c with allowIn := true }) (parse .expression)
    endStatement
    node .plain start [e]

def throwStatement : Parser Node := do
  let start ← tokenStart
  advance
  let e ← parse .expression
  endStatement
  node .plain start [e]

/-- Statements up to the next case. -/
def caseBody : Parser (List Node) := many do
  if (← seesAnyWord ["case", "default"]) || (← sees "\x7d") || (← seesEnding) then return none
  some <$> parse (.statement false)

def switchCase : Parser Node := do
  let start ← tokenStart
  if ← eatWord "default" then
    expect ":"
    node .plain start (← caseBody)
  else
    expectWord "case"
    let test ← parse .expression
    expect ":"
    node .decision start (test :: (← caseBody))

def switchStatement : Parser Node := do
  let start ← tokenStart
  advance
  let value ← condition
  expect "\x7b"
  let cases ← manyUntil "\x7d" switchCase
  expect "\x7d"
  node .plain start (value :: cases)

/-- `(pattern: type)` behind `catch`, if it is there. -/
def catchParameter : Parser (List Node) := do
  if ← eat "(" then
    let pattern ← parse .binding
    let type ← typeAnnotation
    expect ")"
    return pattern :: type
  else return []

def tryStatement : Parser Node := do
  let start ← tokenStart
  advance
  let tried ← block
  let handler ← if ← eatWord "catch" then pure ((← catchParameter) ++ [← block]) else pure []
  let final ← if ← eatWord "finally" then pure [← block] else pure []
  node .plain start (tried :: handler ++ final)

/-! ### Statements -/

/-- An expression as a statement, or a labelled statement. -/
def expressionStatement : Parser Node := do
  let start ← tokenStart
  let e ← parse .expression
  if e.isIdentifier && (← sees ":") then
    advance
    node .plain start [← body]
  else
    endStatement
    node .plain start [e]

/-- One expression without commas, as a statement. -/
def assignmentStatement : Parser Node := do
  let start ← tokenStart
  let e ← parseAssignment
  endStatement
  node .plain start [e]

/-- A statement that opens with `let`: a declaration, unless what follows shows that `let` is a
name. Before an operator it opens an expression without commas, and at the end of a statement it
stands alone. -/
def letStatement (nested : Bool) : Parser Node := do
  let start ← tokenStart
  let t ← nextToken
  if assignmentMarks.contains t.mark || isBinaryOperator t then assignmentStatement
  else if [".", "?.", "("].contains t.mark then expressionStatement
  else if t.lexeme = .mark ";" || (nested && t.lexeme ≠ .mark "[") then
    let name ← tokenNode (.identifier "let")
    endStatement
    node .plain start [name]
  else variableStatement start

/-- A class or an export behind decorators. -/
def decoratedStatement : Parser Node := do
  let start ← tokenStart
  let decs ← decorators
  if ← seesWord "export" then exportDeclaration decs
  else
    discard <| modifiers false false
    classFrom start decs

def importStatement : Parser Node := do
  let start ← tokenStart
  if ["(", "."].contains (← nextToken).mark then expressionStatement
  else
    advance
    importDeclaration start

/-- The words that open a declaration only if more of it follows. -/
def declarationWords : List String :=
  ["interface", "type", "module", "namespace", "declare", "enum", "private", "protected", "public",
   "abstract", "accessor", "static", "readonly", "global"]

/-- A statement that opens with the word `w`. -/
def wordStatement (nested : Bool) (w : String) : Parser Node := do
  let start ← tokenStart
  match w with
  | "if" => ifStatement
  | "do" => doWhileStatement
  | "while" => whileStatement
  | "for" => forStatement
  | "continue" | "break" => jumpStatement
  | "with" => withStatement
  | "switch" => switchStatement
  | "throw" => throwStatement
  | "try" => tryStatement
  | "debugger" =>
    advance
    endStatement
    node .plain start []
  | "class" => classFrom start []
  | "export" => exportDeclaration []
  | "return" => returnStatement
  | "var" => variableStatement start
  | "const" =>
    if (← nextToken).word == "enum" then
      advance
      advance
      enumTail start
    else variableStatement start
  | "function" => function .bodyOrStatement
  | "let" => if (← token).escaped then expressionStatement else letStatement nested
  | "import" => importStatement
  | "async" =>
    if ← seesFunction then function .bodyOrStatement
    else if ← startsDeclaration then declarationStatement
    else expressionStatement
  | _ =>
    if ← seesUsing then variableStatement start
    else if ← seesAwaitUsing then
      advance
      variableStatement start
    else if declarationWords.contains w then
      if ← startsDeclaration then declarationStatement else expressionStatement
    else expressionStatement

def statement (nested : Bool) : Parser Node := do
  match (← token).lexeme with
  | .mark "\x7b" => block
  | .mark ";" => tokenNode .plain
  | .mark "@" => decoratedStatement
  | .word w => wordStatement nested w
  | _ => expressionStatement

end ScriptAtlas.Syntax
