import ScriptAtlas.Syntax.Grammar.Class

/-! # Declarations

Variables, and the declarations that only types need: interfaces, type aliases, enumerations and
namespaces. -/

namespace ScriptAtlas.Syntax

/-! ### Variables -/

/-- `pattern: type = expression`. A `?` before the type is passed over. -/
def declarator : Parser Node := do
  let start ← tokenStart
  let pattern ← parse .binding
  let name := match pattern.kind with
    | .identifier n => some n
    | _ => none
  if name.isSome && !(← onNewLine) then discard <| eat "!"
  discard <| eat "?"
  let type ← typeAnnotation
  let init ← if ← eat "=" then pure [← parseAssignment] else pure []
  node (.declarator name (!init.isEmpty)) start (pattern :: type ++ init)

/-- The declarators behind `var`, `let` or `const`. -/
def declarators (start : Nat) : Parser Node := do
  let items ← commaSeparated (return [← declarator])
  node .plain start items

/-- A variable declaration as a statement, from its first word on. -/
def variableStatement (start : Nat) : Parser Node := do
  advance
  let declaration ← declarators start
  endStatement
  return declaration

/-- Is the token a name on the same line? -/
def seesNameOnLine : Parser Bool := do
  let t ← token
  return t.isName && !t.newline

/-- Does `using` open a declaration? -/
def seesUsing : Parser Bool := do
  unless ← seesWord "using" do return false
  let t ← nextToken
  return (t.isName || t.lexeme = .mark "\x7b") && !t.newline

/-- Does `await using` open a declaration? -/
def seesAwaitUsing : Parser Bool := seesPair "await" "using"

/-! ### Types -/

/-- `interface name extends types { members }`, from the name on. -/
def interfaceTail (start : Nat) : Parser Node := do
  discard bindingName
  let types ← typeParameters
  let clauses ← heritage
  let members ← typeMembers
  node .plain start (types ++ clauses ++ members)

/-- The right side of a type alias, where `intrinsic` stands alone. -/
def aliasedType : Parser Node := do
  if (← seesWord "intrinsic") && (← nextToken).lexeme ≠ .mark "." then tokenNode .plain
  else parse .type

/-- `type name = type`, from the name on. -/
def typeAliasTail (start : Nat) : Parser Node := do
  discard bindingName
  let types ← typeParameters
  expect "="
  let type ← aliasedType
  endStatement
  node .plain start (types ++ [type])

/-- The name of a member of an enumeration: a word or a string, and in brackets any expression that
is one or a template without substitutions. -/
def enumKey : Parser Unit := do
  if ← sees "[" then
    let key ← computedKey
    unless key.nodes.all (·.isPlainText) do unexpected
  else if (← token).isText then advance
  else discard anyWord

/-- `name = expression` in an enumeration. -/
def enumMember : Parser Node := do
  let start ← tokenStart
  enumKey
  let init ← initializer
  node .plain start init

/-- `enum name { members }`, from the name on. -/
def enumTail (start : Nat) : Parser Node := do
  discard bindingName
  expect "\x7b"
  let items ← commaList "\x7d" enumMember
  expect "\x7d"
  node .plain start items

/-! ### Namespaces -/

/-- `name.name { statements }`, from the first name on. -/
def namespaceTail (start : Nat) : Parser Node := do
  discard bindingName
  discard <| many do if ← eat "." then some <$> bindingName else return none
  node .plain start [← block]

/-- `"name" { statements }` or a namespace, from the name on. -/
def moduleTail (start : Nat) : Parser Node := do
  if (← token).isText then
    advance
    if ← sees "\x7b" then node .plain start [← block]
    else
      endStatement
      node .plain start []
  else namespaceTail start

/-- `import name = require("module")` and `import name = name.name`, from `=` on. -/
def importEqualsTail (start : Nat) : Parser Node := do
  expect "="
  if ← eatWord "require" then
    expect "("
    unless (← token).isText do unexpected
    advance
    expect ")"
  else
    discard anyWord
    qualifiers
  endStatement
  node .plain start []

/-! ### Declarations behind modifiers -/

/-- The modifiers in front of a declaration. -/
def declarationModifiers : Parser (List String) := many do
  let word := (← token).word
  unless modifierWords.contains word do return none
  return if (← attempt passDeclarationModifier).isSome then some word else none

/-- A declaration behind its modifiers. -/
def declaration (start : Nat) (decs : List Node) (mods : List String) : Parser Node := do
  match (← token).word with
  | "class" => classFrom start decs
  | "function" =>
    if mods.contains "declare" then declaredFunction start (mods.contains "async")
    else functionFrom start (mods.contains "async") .bodyOrStatement
  | "var" | "let" | "const" => variableStatement start
  | "interface" => advance; interfaceTail start
  | "type" => advance; typeAliasTail start
  | "enum" => advance; enumTail start
  | "namespace" => advance; namespaceTail start
  | "module" => advance; moduleTail start
  | "global" =>
    advance
    node .plain start [← block]
  | "import" =>
    advance
    let name ← anyWord
    if name == "type" && (← token).isName then advance
    importEqualsTail start
  | _ => unexpected

/-- One word of a possible declaration: does it settle whether one stands here? -/
def declarationStep : Parser (Option Bool) := do
  let word := (← token).word
  if ["var", "let", "const", "function", "class", "enum"].contains word then return some true
  advance
  let t ← token
  match word with
  | "interface" | "type" => return some (t.isName && !t.newline)
  | "module" | "namespace" => return some ((t.isName || t.isText) && !t.newline)
  | "abstract" | "accessor" | "async" | "declare" | "private" | "protected" | "public"
  | "readonly" => return if t.newline then some false else none
  | "global" => return some (t.isName || t.word == "export" || t.lexeme = .mark "\x7b")
  | "import" =>
    return some (t.isText || t.isWord || t.lexeme = .mark "*" || t.lexeme = .mark "\x7b")
  | "export" =>
    let u ← if t.word == "type" then nextToken else pure t
    let settled := ["=", "*", "\x7b", "@"].contains u.mark || ["default", "as"].contains u.word
    return if settled then some true else none
  | "static" => return none
  | _ => return some false

/-- Does a declaration stand here, behind modifiers or not? -/
def startsDeclaration : Parser Bool := ahead do
  let answer ← iterate (fun (acc : Option Bool) => do
    if acc.isSome then return none
    match ← declarationStep with
    | some b => return some (some b)
    | none => return some none) none
  return answer.getD false

/-- A declaration as a statement. -/
def declarationStatement : Parser Node := do
  let start ← tokenStart
  let mods ← declarationModifiers
  within (fun c => { c with inAwait := mods.contains "async" }) (declaration start [] mods)

end ScriptAtlas.Syntax
