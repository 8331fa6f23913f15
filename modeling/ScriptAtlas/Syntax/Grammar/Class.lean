import ScriptAtlas.Syntax.Grammar.Function

/-! # Classes

Class heads and members. A method is a `method` node whose last child is its function; fields,
accessors, index signatures and static blocks are `plain`. -/

namespace ScriptAtlas.Syntax

/-! ### Heads -/

/-- The expression of an `extends` clause, with its type arguments. -/
def superclass : Parser (List Node) := do
  let e ← parse .leftSide
  if e.kind = .instantiation then return e.children
  else return e :: (← typeArguments?)

/-- Items with commas between them, at least one. -/
def commaSeparated {α : Type} (item : Parser (List α)) : Parser (List α) := do
  let first ← item
  let rest ← many do if ← eat "," then some <$> item else return none
  return first ++ rest.flatten

/-- `extends` and `implements` clauses, in any order. -/
def heritage : Parser (List Node) := do
  let clauses ← many do
    if ← eatWord "extends" then some <$> commaSeparated superclass
    else if ← eatWord "implements" then some <$> commaSeparated (return [← typeReference])
    else return none
  return clauses.flatten

/-- The name of a class, if it has one. `implements` is none. -/
def className : Parser Unit := do
  if (← token).isName && !(← seesWord "implements") then advance

/-! ### Members -/

/-- The initialiser of a field, commas included. -/
def fieldInitializer : Parser (List Node) := do
  if ← eat "=" then return [← insideFunction false false (parse .expression)] else return []

/-- A method from its parameters on. -/
def methodTail (start : Nat) (decs : List Node) (key : Key) (isAsync isGenerator : Bool) :
    Parser Node := do
  let body ← functionTail (← tokenStart) none isAsync isGenerator .bodyOrStatement
  node (.method key.name) start (decs ++ key.nodes ++ [body])

/-- A field from its type on. -/
def fieldTail (start : Nat) (decs : List Node) (key : Key) : Parser Node := do
  unless ← onNewLine do discard <| eat "!"
  let type ← typeAnnotation
  let init ← fieldInitializer
  endStatement
  node .plain start (decs ++ key.nodes ++ type ++ init)

/-- The block of `static { … }`, where `await` is an operator. -/
def staticBlock : Parser Node :=
  within (fun c => { c with inAwait := true, inYield := false }) block

/-- A member of a class. `constructor` without `static` in front is a method. -/
def classMember : Parser Node := do
  let start ← tokenStart
  let decs ← decorators
  let mods ← modifiers true true
  if (← seesWord "static") && (← nextToken).lexeme = .mark "\x7b" then
    advance
    let body ← staticBlock
    node .plain start (decs ++ [body])
  else if (← takeModifier "get") || (← takeModifier "set") then
    methodTail start decs (← memberKey) (mods.contains "async") false
  else if (← seesWord "constructor") && !mods.contains "static" then
    methodTail start decs (← memberKey) (mods.contains "async") false
  else if ← seesIndexSignature then
    let signature ← indexSignature start
    node .plain start (decs ++ [signature])
  else
    let isGenerator ← eat "*"
    let key ← memberKey
    discard <| eat "?"
    if isGenerator || (← seesAny ["(", "<"]) then
      methodTail start decs key (mods.contains "async") isGenerator
    else fieldTail start decs key

/-- The members of a class, in braces. -/
def classBody : Parser (List Node) := do
  expect "\x7b"
  let members ← many do
    discard <| many do if ← eat ";" then return some () else return none
    if (← sees "\x7d") || (← seesEnding) then return none
    some <$> classMember
  expect "\x7d"
  return members

/-- A class from what follows the word `class` on. -/
def classTail (start : Nat) (decs : List Node) : Parser Node := do
  className
  let types ← typeParameters
  let clauses ← heritage
  let members ← classBody
  node .plain start (decs ++ types ++ clauses ++ members)

/-- A class from the word `class` on. -/
def classFrom (start : Nat) (decs : List Node) : Parser Node := do
  expectWord "class"
  classTail start decs

end ScriptAtlas.Syntax
