import ScriptAtlas.Syntax.Grammar.Basic

/-! # Modifiers, keys and decorators

What may stand before a declaration, a class member or an object property: words such as `static`
or `async`, which are modifiers only if something follows that they can modify, and decorators. -/

namespace ScriptAtlas.Syntax

def modifierWords : List String :=
  ["abstract", "accessor", "async", "const", "declare", "default", "export", "in", "out", "public",
   "private", "protected", "override", "readonly", "static"]

/-- Can the token be what a modifier modifies? -/
def followsModifier : Parser Bool := do
  let t ← token
  match t.lexeme with
  | .privateName _ => return true
  | .mark m => return ["[", "\x7b", "*", "..."].contains m
  | _ => return t.isPropertyName

/-- Can the token be the key of what `get` or `set` modifies? -/
def followsAccessor : Parser Bool := do
  let t ← token
  match t.lexeme with
  | .privateName _ | .mark "[" => return true
  | _ => return t.isPropertyName

/-- Is the token `w`, and the one behind it `v` on the same line? -/
def seesPair (w v : String) : Parser Bool := do
  if ← seesWord w then
    let t ← nextToken
    return t.lexeme = .word v && !t.newline
  else return false

/-- Can the token follow `export default`? -/
def followsDefault : Parser Bool := do
  if (← seesAnyWord ["class", "function", "interface"]) || (← sees "@") then return true
  return (← seesPair "abstract" "class") || (← seesPair "async" "function")

/-- Can the token follow `export` as a modifier? -/
def followsExport : Parser Bool := do
  if ← sees "@" then return true
  if (← seesAny ["*", "\x7b"]) || (← seesWord "as") then return false
  followsModifier

/-- Moves past a word that is a modifier for what stands behind it, and fails otherwise. -/
def passModifier : Parser Unit := do
  let word := (← token).word
  advance
  let fits ← match word with
    | "static" => followsModifier
    | "get" | "set" => followsAccessor
    | _ => if ← onNewLine then pure false else followsModifier
  unless fits do unexpected

/-- Moves past a word that is a modifier of the declaration behind it, and fails otherwise. -/
def passDeclarationModifier : Parser Unit := do
  match (← token).word with
  | "const" => advance; unless ← seesWord "enum" do unexpected
  | "export" =>
    advance
    let fits ←
      if ← seesWord "default" then ahead (advance *> followsDefault)
      else if ← seesWord "type" then ahead (advance *> followsExport)
      else followsExport
    unless fits do unexpected
  | "default" => advance; unless ← followsDefault do unexpected
  | _ => passModifier

/-- Takes the word `w` if it is a modifier here. -/
def takeModifier (w : String) : Parser Bool := do
  if ← seesWord w then return (← attempt passModifier).isSome
  else return false

/-- The next modifier, if there is one. `static` before a block is none where `atBlock` holds, and
`const` is one only where `permitConst` holds. -/
def modifier? (permitConst atBlock seenStatic : Bool) : Parser (Option String) := do
  let word := (← token).word
  if !modifierWords.contains word then return none
  if word == "const" then
    if !permitConst then return none
    let passed ← attempt do
      advance
      if (← onNewLine) || !(← followsModifier) then unexpected
    return if passed.isSome then some word else none
  if word == "static" then
    if seenStatic then return none
    if atBlock && (← nextToken).lexeme = .mark "\x7b" then return none
  return if (← attempt passModifier).isSome then some word else none

/-- All modifiers in front. -/
def modifiers (permitConst atBlock : Bool) : Parser (List String) := do
  let found ← iterate (fun (acc : List String) => do
    let m ← modifier? permitConst atBlock (acc.contains "static")
    return m.map (· :: acc)) []
  return found.reverse

/-! ### Keys -/

/-- The key of a property or member: its text if it is a plain name, and the expression inside
brackets if it is computed. -/
structure Key where
  name : Option String
  nodes : List Node

/-- `[expression]` -/
def computedKey : Parser Key := do
  expect "["
  let e ← bracketed parseAssignment
  expect "]"
  return ⟨none, [e]⟩

/-- A key that is not private. -/
def propertyKey : Parser Key := do
  let t ← token
  match t.lexeme with
  | .word w => advance; return ⟨some w, []⟩
  | .text _ | .number => advance; return ⟨none, []⟩
  | .mark "[" => computedKey
  | _ => unexpected

/-- The key of a class member. -/
def memberKey : Parser Key := do
  match (← token).lexeme with
  | .privateName _ => advance; return ⟨none, []⟩
  | _ => propertyKey

/-- Any word, reserved or not. -/
def anyWord : Parser String := do
  let t ← token
  if t.isWord then advance; return t.word
  else unexpected

/-- A word that can stand as a name. -/
def bindingName : Parser String := do
  let t ← token
  if t.isName then advance; return t.word
  else unexpected

/-! ### Decorators -/

def decorator : Parser Node := do
  let start ← tokenStart
  advance
  let e ← within (fun c => { c with inDecorator := true }) (parse .leftSide)
  node .plain start [e]

/-- All decorators in front. -/
def decorators : Parser (List Node) :=
  many do if ← sees "@" then some <$> decorator else return none

end ScriptAtlas.Syntax
