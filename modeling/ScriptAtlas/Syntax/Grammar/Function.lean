import ScriptAtlas.Syntax.Grammar.Type

/-! # Functions

Functions from their parameters on, and arrow functions. A function without a body is a
signature. -/

namespace ScriptAtlas.Syntax

/-- The context inside a function. -/
def insideFunction {α : Type} (isAsync isGenerator : Bool) (p : Parser α) : Parser α :=
  within (fun _ => { inAwait := isAsync, inYield := isGenerator }) p

/-- Statements up to a closing brace or the end of the text. -/
def statements : Parser (List Node) := manyUntil "\x7d" (parse (.statement false))

/-- `{ statements }` -/
def block : Parser Node := do
  let start ← tokenStart
  expect "\x7b"
  let body ← statements
  expect "\x7d"
  node .plain start body

/-- How a function ends. -/
inductive FunctionEnd where
  /-- By its body. -/
  | body
  /-- By its body or, if it has none, like a statement. -/
  | bodyOrStatement
  /-- Like a statement, behind a body or not. -/
  | statement
deriving DecidableEq, Repr

/-- A function after its name, with its type parameters, parameters, result and body. -/
def functionTail (start : Nat) (name : Option String) (isAsync isGenerator : Bool)
    (ending : FunctionEnd) : Parser Node := do
  let (children, hasBody) ← insideFunction isAsync isGenerator do
    let types ← typeParameters
    let params ← parameters
    let result ← resultAnnotation
    let head := types ++ params :: result
    if ← sees "\x7b" then return (head ++ [← block], true) else return (head, false)
  match ending with
  | .body => unless hasBody do unexpected
  | .bodyOrStatement => unless hasBody do endStatement
  | .statement => endStatement
  node (.function name hasBody) start children

/-- A function behind `function` and `*`. Its name may be missing, even in a declaration. -/
def functionNamed (start : Nat) (isAsync isGenerator : Bool) (ending : FunctionEnd) :
    Parser Node := do
  let t ← token
  if t.isName then
    advance
    functionTail start (some t.word) isAsync isGenerator ending
  else functionTail start none isAsync isGenerator ending

/-- A function from `function` on. -/
def functionFrom (start : Nat) (isAsync : Bool) (ending : FunctionEnd) : Parser Node := do
  expectWord "function"
  let isGenerator ← eat "*"
  functionNamed start isAsync isGenerator ending

/-- A function behind `declare`, which is no generator. -/
def declaredFunction (start : Nat) (isAsync : Bool) : Parser Node := do
  expectWord "function"
  functionNamed start isAsync false .statement

/-- A function with `async` in front or not. -/
def function (ending : FunctionEnd) : Parser Node := do
  let start ← tokenStart
  let isAsync ← eatWord "async"
  functionFrom start isAsync ending

/-- `function`, or `async` and `function` on one line. -/
def seesFunction : Parser Bool := return (← seesWord "function") || (← seesPair "async" "function")

/-! ### Arrow functions -/

/-- The body behind `=>`. What `in` means outside, it means in a block too. -/
def arrowBody (start : Nat) (isAsync arrowResult : Bool) (head : List Node) : Parser Node := do
  let body ← within (fun c => { c with inAwait := isAsync, inYield := false }) do
    if ← sees "\x7b" then block else parse (.assignment arrowResult)
  node .arrow start (head ++ [body])

/-- `name => body`, from the arrow on. -/
def simpleArrow (start : Nat) (param : Node) (isAsync arrowResult : Bool) : Parser Node := do
  unless param.isIdentifier do unexpected
  expect "=>"
  arrowBody start isAsync arrowResult [param]

/-- What stands before the body of an arrow function with parentheses. -/
structure ArrowHead where
  start : Nat
  isAsync : Bool
  children : List Node
  hasResult : Bool

/-- `async <types>(parameters): result =>` -/
def arrowHead : Parser ArrowHead := do
  let start ← tokenStart
  let isAsync ← eatWord "async"
  let (children, hasResult) ← within (fun c => { c with inAwait := c.inAwait || isAsync }) do
    let types ← typeParameters
    let params ← parameters
    let result ← resultAnnotation
    return (types ++ params :: result, !result.isEmpty)
  expect "=>"
  return ⟨start, isAsync, children, hasResult⟩

/-- What the first tokens say about an arrow function. -/
inductive Likelihood where
  | no
  | maybe
  | yes

/-- Could what stands behind `(` be parameters? -/
def parametersAhead : Parser Likelihood := do
  advance
  if ← eat ")" then
    return if ← seesAny ["=>", ":", "\x7b"] then .yes else .no
  if ← seesAny ["[", "\x7b"] then return .maybe
  if ← eat "..." then
    let t ← token
    if t.isName then return .yes
    return if t.isLiteral then .no else .maybe
  let first ← token
  advance
  let second ← token
  if modifierWords.contains first.word && first.word != "async" && second.isName then
    return if second.word == "as" then .no else .yes
  unless first.isName || first.word == "this" do return .no
  match second.mark with
  | ":" => return .yes
  | "?" =>
    advance
    return if ← seesAny [":", ",", "=", ")"] then .yes else .no
  | "," | "=" | ")" => return .maybe
  | _ => return .no

/-- Could what stands behind `<` be type parameters? -/
def typeParametersAhead : Parser Likelihood := do
  advance
  unless (← token).isName || (← seesWord "const") do return .no
  if (← read).dialect.jsx then
    discard <| eatWord "const"
    advance
    if ← eatWord "extends" then
      return if ← seesAny ["=", ">", "/"] then .no else .yes
    return if ← seesAny [",", "="] then .yes else .no
  return .maybe

/-- Could an arrow function with parentheses stand here? -/
def arrowAhead : Parser Likelihood := peek do
  if ← eatWord "async" then
    if ← onNewLine then return .no
  if ← sees "(" then parametersAhead
  else if ← sees "<" then typeParametersAhead
  else return .no

/-- An arrow function with parentheses, if one stands here. Where a result type must not swallow
the colon of a conditional expression, a colon has to follow the body. -/
def parenthesizedArrow? (arrowResult : Bool) : Parser (Option Node) := do
  match ← arrowAhead with
  | .no => return none
  | .yes =>
    let head ← arrowHead
    some <$> arrowBody head.start head.isAsync true head.children
  | .maybe =>
    let before ← get
    let some head ← attempt arrowHead | return none
    let arrow := arrowBody head.start head.isAsync arrowResult head.children
    if arrowResult || !head.hasResult then some <$> arrow
    else
      let found ← attempt do
        let found ← arrow
        unless ← sees ":" do unexpected
        return found
      if found.isNone then set before
      return found

/-- `async name => body`, if it stands here. -/
def asyncSimpleArrow? (arrowResult : Bool) : Parser (Option Node) := do
  let isArrow ← ahead do
    expectWord "async"
    if (← onNewLine) || !(← token).isName then return false
    advance
    return (← sees "=>") && !(← onNewLine)
  unless isArrow do return none
  let start ← tokenStart
  advance
  let paramStart ← tokenStart
  let name ← bindingName
  let param ← node (.identifier name) paramStart []
  some <$> simpleArrow start param true arrowResult

end ScriptAtlas.Syntax
