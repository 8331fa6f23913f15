import ScriptAtlas.Syntax.Grammar.Type

/-! # Tags

Elements written with tags inside expressions. Names and text leave no node; attribute values,
embedded expressions and child elements do. -/

namespace ScriptAtlas.Syntax

/-- Expects `m` and reads the text behind it as the inside of an element. -/
def expectBeforeChild (m : String) : Parser Unit := do
  unless ← sees m do unexpected
  advanceBy scanChild

/-- Expects `m` at the end of something that stands inside an element or not. -/
def expectClose (inside : Bool) (m : String) : Parser Unit :=
  if inside then expectBeforeChild m else expect m

/-- A word that may hold `-`. -/
def tagWord : Parser Unit := do
  unless (← token).isWord do unexpected
  reread Scanned.asTagName
  advance

/-- `name`, `space:name` or `name.name` -/
def tagName : Parser Unit := do
  tagWord
  if ← eat ":" then tagWord
  else discard <| many do
    if ← eat "." then
      tagWord
      return some ()
    else return none

/-- `{expression}`, which may be empty; `{...expression}` inside an element. -/
def embedded (inside : Bool) : Parser (List Node) := do
  expect "\x7b"
  if ← sees "\x7d" then
    expectClose inside "\x7d"
    return []
  if inside then discard <| eat "..."
  let e ← bracketed (parse .expression)
  expectClose inside "\x7d"
  return [e]

/-- The value of an attribute, behind `=`. -/
def attributeValue : Parser (List Node) := do
  let d := (← read).dialect
  advanceBy (scanAttribute d)
  if (← token).isText then
    advance
    return []
  else if ← sees "\x7b" then embedded false
  else if ← sees "<" then return [← parse (.tag false)]
  else unexpected

/-- An attribute, or a spread of attributes. -/
def tagAttribute : Parser (List Node) := do
  if ← eat "\x7b" then
    expect "..."
    let e ← bracketed (parse .expression)
    expect "\x7d"
    return [e]
  else
    tagWord
    if ← eat ":" then tagWord
    if ← sees "=" then attributeValue else return []

/-- Elements, expressions and text up to a closing tag. -/
def tagChildren : Parser (List Node) := do
  let found ← many do
    if (← token).lexeme = .jsxText then
      advanceBy scanChild
      return some []
    else if ← sees "\x7b" then some <$> embedded true
    else if ← sees "<" then
      if (← nextToken).lexeme = .mark "/" then return none
      return some [← parse (.tag true)]
    else unexpected
  return found.flatten

/-- A closing tag. Its name need not be that of the tag it closes. -/
def closingTag (inside : Bool) : Parser Unit := do
  expect "<"
  expect "/"
  unless ← sees ">" do tagName
  expectClose inside ">"

/-- An element. -/
def tag (inside : Bool) : Parser Node := do
  let start ← tokenStart
  expect "<"
  if ← sees ">" then
    expectBeforeChild ">"
    let children ← tagChildren
    closingTag inside
    node .plain start children
  else
    tagName
    let types ← typeArguments?
    let attributes ← many do
      if (← token).isWord || (← sees "\x7b") then some <$> tagAttribute else return none
    let head := types ++ attributes.flatten
    if ← eat "/" then
      expectClose inside ">"
      node .plain start head
    else
      expectBeforeChild ">"
      let children ← tagChildren
      closingTag inside
      node .plain start (head ++ children)

end ScriptAtlas.Syntax
