import ScriptAtlas.Syntax.Grammar.Declaration

/-! # Imports and exports

Statements that join modules. Those that name another module carry its name in their kind; the
names they list leave no node. -/

namespace ScriptAtlas.Syntax

/-- A string literal, with its value. -/
def textLiteral : Parser String := do
  match (← token).lexeme with
  | .text value => advance; return value
  | _ => unexpected

/-- A key and its value behind `with`. -/
def importAttribute : Parser Unit := do
  if (← token).isText then advance else discard anyWord
  expect ":"
  discard textLiteral

/-- `with { key: "value" }`, if it is there. -/
def importAttributes : Parser Unit := do
  if (← seesWord "with") || ((← seesWord "assert") && !(← onNewLine)) then
    advance
    expect "\x7b"
    discard <| commaList "\x7d" importAttribute
    expect "\x7d"

/-- `"module" with { … }` and the end of the statement. -/
def moduleSource : Parser String := do
  let source ← textLiteral
  importAttributes
  endStatement
  return source

/-! ### Lists of names -/

/-- Can the token name an export? -/
def seesExportName : Parser Bool := do
  let t ← token
  return t.isWord || t.isText

/-- The name of an export: a word or a string. -/
def exportName : Parser Unit := do
  if ← seesExportName then advance else unexpected

/-- `name as name`, also with `type` in front. Both `type` and `as` may be names themselves. -/
def specifier : Parser Unit := do
  let isType ← seesWord "type"
  exportName
  if isType && (← seesWord "as") then
    advance
    discard <| eatWord "as"
    if ← seesExportName then advance
  else
    if isType && (← seesExportName) then advance
    if ← eatWord "as" then exportName

/-- `{ name as name, … }` -/
def specifiers : Parser Unit := do
  expect "\x7b"
  discard <| commaList "\x7d" specifier
  expect "\x7d"

/-! ### Imports -/

/-- `* as name` or `{ names }` -/
def importedNames : Parser Unit := do
  if ← eat "*" then
    expectWord "as"
    discard bindingName
  else specifiers

/-- `names from "module"`, from what follows the default name on. -/
def importTail (start : Nat) (hasDefault : Bool) : Parser Node := do
  if hasDefault then
    if ← eat "," then importedNames
  else importedNames
  expectWord "from"
  let source ← moduleSource
  node (.importFrom source) start []

/-- Does `type` stand before what is imported, not for its name? -/
def seesTypeImport : Parser Bool := do
  if (← seesWord "from") && (← nextToken).isText then return false
  return (← token).isName || (← seesAny ["*", "\x7b"])

/-- Does `source` stand before what is imported, not for its name? -/
def seesSourceImport : Parser Bool := do
  if ← seesWord "from" then return (← nextToken).word == "from"
  return (← token).isName

/-- `from "module"` behind a default name alone. -/
def importDefaultTail (start : Nat) : Parser Node := do
  expectWord "from"
  let source ← moduleSource
  node (.importFrom source) start []

/-- `= …` or `, names from "module"`, behind a default name. -/
def importNamedTail (start : Nat) : Parser Node := do
  if ← sees "=" then importEqualsTail start else importTail start true

/-- An import declaration, from what follows `import` on. -/
def importDeclaration (start : Nat) : Parser Node := do
  let t ← token
  if t.isText then
    let source ← moduleSource
    node (.importFrom source) start []
  else if !t.isName then importTail start false
  else
    advance
    if t.word == "type" && (← seesTypeImport) then
      if (← token).isName then
        advance
        importNamedTail start
      else importTail start false
    else if t.word == "defer" && (← sees "*") then importTail start false
    else if t.word == "source" && (← seesSourceImport) then
      advance
      importDefaultTail start
    else importNamedTail start

/-! ### Exports -/

/-- `* as name from "module"` -/
def exportAll (start : Nat) : Parser Node := do
  expect "*"
  if ← eatWord "as" then exportName
  expectWord "from"
  let source ← moduleSource
  node (.exportAll source) start []

/-- `{ names }`, and `from "module"` behind it or not. A `from` before anything but a literal is
passed over. -/
def exportNames (start : Nat) : Parser Node := do
  specifiers
  if (← eatWord "from") && (← token).isLiteral then
    let source ← moduleSource
    node (.exportFrom source) start []
  else
    endStatement
    node .exported start []

/-- What follows `export default`. -/
def exportDefault (start : Nat) (decs : List Node) : Parser Node := do
  let innerStart ← tokenStart
  let decs := decs ++ (← decorators)
  let isInterface ←
    if ← seesWord "interface" then ahead (advance *> seesNameOnLine) else pure false
  let inner ←
    if ← seesWord "class" then classFrom innerStart decs
    else if ← seesPair "abstract" "class" then
      advance
      classFrom innerStart decs
    else if isInterface then
      advance
      interfaceTail innerStart
    else if ← seesFunction then function .bodyOrStatement
    else
      let e ← parseAssignment
      endStatement
      pure e
  node .exported start [inner]

/-- An import behind `export`, which must give a name to something and not name another module. -/
def exportedImport (start : Nat) : Parser Node := do
  let inner ← importDeclaration start
  match inner.kind with
  | .importFrom _ => unexpected
  | _ => return inner

/-- A class behind decorators and modifiers that follow `export`. Whatever word comes next is taken
for `class`. -/
def exportedClass (decs : List Node) : Parser Node := do
  let decs := decs ++ (← decorators)
  let start ← tokenStart
  discard <| modifiers false false
  advance
  classTail start decs

/-- An export, from the word `export` on. -/
def exportDeclaration (decs : List Node) : Parser Node := do
  let start ← tokenStart
  advance
  if ← eat "=" then
    let e ← parseAssignment
    endStatement
    node .exported start [e]
  else if ← eatWord "default" then exportDefault start decs
  else if ← sees "*" then exportAll start
  else if ← sees "\x7b" then exportNames start
  else if (← seesWord "as") && (← nextToken).word == "namespace" then
    advance
    advance
    discard anyWord
    endStatement
    node .exported start []
  else if (← seesWord "type") && (← nextToken).lexeme = .mark "*" then
    advance
    exportAll start
  else if (← seesWord "type") && (← nextToken).lexeme = .mark "\x7b" then
    advance
    exportNames start
  else if ← sees "@" then node .exported start [← exportedClass decs]
  else
    let innerStart ← tokenStart
    let inner ←
      if ← eatWord "import" then exportedImport innerStart
      else declaration innerStart decs (← declarationModifiers)
    node .exported start [inner]

end ScriptAtlas.Syntax
