import ScriptAtlas.Syntax.Grammar.Modifier

/-! # Patterns and parameters

The left sides of declarations, and parameter lists. A pattern that is a single name is an
`identifier` node; other patterns are `plain` and hold their defaults and computed keys. -/

namespace ScriptAtlas.Syntax

/-- `= expression`, if it is there. -/
def initializer : Parser (List Node) := do
  if ← eat "=" then return [← within (fun c => { c with allowIn := true }) parseAssignment]
  else return []

/-- `: type`, if it is there. -/
def typeAnnotation : Parser (List Node) := do
  if ← eat ":" then return [← parse .type] else return []

/-- A pattern with its default. -/
def bindingElement : Parser Node := do
  let start ← tokenStart
  let pattern ← parse .binding
  match ← initializer with
  | [] => return pattern
  | init => node .plain start (pattern :: init)

/-- `...pattern` -/
def restElement : Parser Node := do
  let start ← tokenStart
  advance
  let pattern ← parse .binding
  let init ← initializer
  node .plain start (pattern :: init)

/-- Items of a pattern or parameter list up to `close`. An item says whether it is a rest item;
nothing but a comma may follow one. -/
def itemsUntil (close : String) (item : Parser (Bool × Node)) : Parser (List Node) := do
  let closes : Parser Bool := return (← sees close) || (← seesEnding)
  let (found, _) ← iterate (fun (acc : List Node × Bool) => do
    if ← closes then return none
    unless acc.1.isEmpty do
      expect ","
      if ← closes then return none
    if acc.2 then unexpected
    let (isRest, found) ← item
    return some (found :: acc.1, isRest)) (([], false) : List Node × Bool)
  return found.reverse

/-- Elements of a pattern up to `close`. -/
def elementsUntil (close : String) (element : Parser Node) : Parser (List Node) :=
  itemsUntil close do
    if ← sees "..." then return (true, ← restElement) else return (false, ← element)

/-- `key`, `key = default` or `key: pattern` -/
def bindingProperty : Parser Node := do
  let start ← tokenStart
  let named := (← token).isName
  let key ← propertyKey
  if named && !(← sees ":") then
    node .plain start (← initializer)
  else
    expect ":"
    node .plain start (key.nodes ++ [← bindingElement])

/-- An element of an array pattern, which may be missing. -/
def bindingItem : Parser Node := do
  if ← sees "," then return .leaf .hole ⟨← tokenStart, ← tokenStart⟩
  else bindingElement

def bindingPattern : Parser Node := do
  let start ← tokenStart
  if ← eat "\x7b" then
    let elements ← elementsUntil "\x7d" bindingProperty
    expect "\x7d"
    node .plain start elements
  else if ← eat "[" then
    let elements ← elementsUntil "]" bindingItem
    expect "]"
    node .plain start elements
  else
    let name ← bindingName
    node (.identifier name) start []

/-! ### Parameters -/

/-- A parameter, and whether it is a rest parameter. -/
def parameter : Parser (Bool × Node) := do
  let start ← tokenStart
  let decs ← decorators
  let isRest ← eat "..."
  unless isRest do discard <| modifiers false false
  let pattern ← parse .binding
  discard <| eat "?"
  let type ← typeAnnotation
  let init ← initializer
  return (isRest, ← node .plain start (decs ++ pattern :: type ++ init))

/-- `this: type` in front of the parameters. -/
def thisParameter : Parser (List Node) := do
  if ← eatWord "this" then
    let type ← typeAnnotation
    unless ← sees ")" do expect ","
    return type
  else return []

/-- A parameter list in parentheses. -/
def parameters : Parser Node := do
  let start ← tokenStart
  expect "("
  let this ← thisParameter
  let items ← itemsUntil ")" parameter
  expect ")"
  node .plain start (this ++ items)

end ScriptAtlas.Syntax
