import ScriptAtlas.Syntax.Grammar.Binding

/-! # Types

Type annotations are read in full, so that the text behind them is found. Their nodes are `plain`
and matter only for the expressions that computed keys put into them. -/

namespace ScriptAtlas.Syntax

/-- Reads `p` where `extends` begins a conditional type. -/
def anyType {α : Type} (p : Parser α) : Parser α := within (fun c => { c with plainTypes := false }) p

/-- Reads `p` where `extends` ends a type. -/
def plainType {α : Type} (p : Parser α) : Parser α := within (fun c => { c with plainTypes := true }) p

/-! ### Parameters, arguments and names -/

/-- `modifiers name extends type = type` -/
def typeParameter : Parser Node := do
  let start ← tokenStart
  discard <| modifiers true false
  discard bindingName
  let bound ← if ← eatWord "extends" then pure [← parse .type] else pure []
  let default ← if ← eat "=" then pure [← parse .type] else pure []
  node .plain start (bound ++ default)

/-- `<type parameters>`, if they are there. -/
def typeParameters : Parser (List Node) := do
  let start ← tokenStart
  if ← eat "<" then
    let items ← commaList ">" typeParameter
    expect ">"
    return [← node .plain start items]
  else return []

/-- `<types>` at the cursor. -/
def typeArguments : Parser Node := do
  let start ← tokenStart
  expect "<"
  let items ← commaList ">" (anyType (parse .type))
  expect ">"
  node .typeArguments start items

/-- `<types>`, if they are there. -/
def typeArguments? : Parser (List Node) := do
  reread Scanned.asAngle
  if ← sees "<" then return [← typeArguments] else return []

/-- `.name` any number of times. -/
def qualifiers : Parser Unit := discard <| many do
  if ← eat "." then
    match (← token).lexeme with
    | .privateName _ => advance
    | _ => discard anyWord
    return some ()
  else return none

/-- `name.name<types>` -/
def typeReference : Parser Node := do
  let start ← tokenStart
  discard anyWord
  qualifiers
  let args ← if ← onNewLine then pure [] else typeArguments?
  node .plain start args

/-- `typeof name.name<types>` -/
def typeQuery : Parser Node := do
  let start ← tokenStart
  advance
  discard anyWord
  qualifiers
  let args ← if ← onNewLine then pure [] else typeArguments?
  node .plain start args

/-- The options of an import type, which are an object literal. -/
def importTypeOptions : Parser Node := do
  if ← sees "\x7b" then parse .atom else unexpected

/-- `import("module", options).name<types>`, with `typeof` in front or not. -/
def importType : Parser Node := do
  let start ← tokenStart
  discard <| eatWord "typeof"
  expectWord "import"
  expect "("
  let argument ← parse .type
  let options ← if (← eat ",") && !(← sees ")") then pure [← importTypeOptions] else pure []
  discard <| eat ","
  expect ")"
  qualifiers
  let args ← if ← onNewLine then pure [] else typeArguments?
  node .plain start (argument :: options ++ args)

/-! ### Results -/

/-- A type, or `name is type`. -/
def resultType : Parser Node := do
  let start ← tokenStart
  let next ← nextToken
  if (← token).isName && next.lexeme = .word "is" && !next.newline then
    advance
    advance
    node .plain start [← parse .type]
  else parse .type

/-- `: result`, if it is there. -/
def resultAnnotation : Parser (List Node) := do
  if ← eat ":" then return [← anyType resultType] else return []

/-- `asserts name` and `asserts name is type` -/
def assertion : Parser Node := do
  let start ← tokenStart
  advance
  discard anyWord
  let type ← if ← eatWord "is" then pure [← parse .type] else pure []
  node .plain start type

/-! ### Members -/

/-- The end of a type member: a comma, or the end of a statement. -/
def endMember : Parser Unit := do
  unless ← eat "," do endStatement

/-- Does `[` open an index signature? -/
def seesIndexSignature : Parser Bool := do
  unless ← sees "[" do return false
  ahead do
    advance
    if ← seesAny ["...", "["] then return true
    let t ← token
    advance
    let isModifier := modifierWords.contains t.word
    if isModifier && (← token).isPlainName then return true
    unless isModifier || t.isPlainName do return false
    if ← seesAny [":", ","] then return true
    unless ← eat "?" do return false
    seesAny [":", ",", "]"]

/-- `word: type` in the brackets of an index signature. -/
def indexParameter : Parser Node := do
  let start ← tokenStart
  discard anyWord
  expect ":"
  node .plain start [← parse .type]

/-- `[name: type]: type` -/
def indexSignature (start : Nat) : Parser Node := do
  expect "["
  let items ← commaList "]" indexParameter
  expect "]"
  expect ":"
  let type ← parse .type
  endMember
  node .plain start (items ++ [type])

/-- `<types>(parameters): result` -/
def signatureTail : Parser (List Node) := do
  let types ← typeParameters
  let params ← parameters
  let result ← resultAnnotation
  return types ++ params :: result

/-- A member of an object type or interface. -/
def typeMember : Parser Node := do
  let start ← tokenStart
  if ← seesAny ["(", "<"] then
    let tail ← signatureTail
    endMember
    node .plain start tail
  else if (← seesWord "new") && ["(", "<"].contains (← nextToken).mark then
    advance
    let tail ← signatureTail
    endMember
    node .plain start tail
  else
    discard <| modifiers false false
    if (← takeModifier "get") || (← takeModifier "set") then
      let key ← propertyKey
      let tail ← signatureTail
      endMember
      node .plain start (key.nodes ++ tail)
    else if ← seesIndexSignature then indexSignature start
    else
      let key ← propertyKey
      discard <| eat "?"
      if ← seesAny ["(", "<"] then
        let tail ← signatureTail
        endMember
        node .plain start (key.nodes ++ tail)
      else
        let type ← typeAnnotation
        endMember
        node .plain start (key.nodes ++ type)

/-- The members of an object type or interface, in braces. -/
def typeMembers : Parser (List Node) := do
  expect "\x7b"
  let members ← manyUntil "\x7d" typeMember
  expect "\x7d"
  return members

/-- Does `{` open a mapped type? -/
def seesMappedType : Parser Bool := ahead do
  expect "\x7b"
  if ← seesAny ["+", "-"] then
    advance
    return ← seesWord "readonly"
  discard <| eatWord "readonly"
  expect "["
  discard anyWord
  seesWord "in"

/-- `{ readonly [name in type as type]?: type }` -/
def mappedType : Parser Node := do
  let start ← tokenStart
  expect "\x7b"
  if ← seesAny ["+", "-"] then
    advance
    expectWord "readonly"
  else discard <| eatWord "readonly"
  expect "["
  discard anyWord
  expectWord "in"
  let bound ← parse .type
  let renamed ← if ← eatWord "as" then pure [← parse .type] else pure []
  expect "]"
  if ← seesAny ["+", "-"] then
    advance
    expect "?"
  else discard <| eat "?"
  let type ← typeAnnotation
  discard <| eat ";"
  expect "\x7d"
  node .plain start (bound :: renamed ++ type)

/-! ### Types without operators -/

/-- Is the element `name: type` or `name?: type`, also behind `...`? -/
def seesNamedElement : Parser Bool := ahead do
  discard <| eat "..."
  discard anyWord
  if ← sees ":" then return true
  expect "?"
  sees ":"

/-- An element of a tuple type. -/
def tupleElement : Parser Node := do
  let start ← tokenStart
  if ← seesNamedElement then
    discard <| eat "..."
    discard anyWord
    discard <| eat "?"
    expect ":"
    node .plain start [← parse .type]
  else
    discard <| eat "..."
    node .plain start [← parse .type]

def tupleType : Parser Node := do
  let start ← tokenStart
  expect "["
  let items ← commaList "]" (anyType tupleElement)
  expect "]"
  node .plain start items

/-- A part of a substitution, and the text of the template if a brace closes it. -/
def substitution (p : Parser Node) : Parser Node := do
  let part ← p
  if ← sees "\x7d" then reread Scanned.asTemplateTail
  return part

/-- Reads the substitutions of a template by `p`. One substitution may have several parts. -/
def templateParts (p : Parser Node) : Parser (List Node) := do
  if (← token).lexeme = .templateWhole then
    advance
    return []
  unless (← token).lexeme = .templateHead do unexpected
  advance
  let first ← substitution p
  let rest ← many do
    match (← token).lexeme with
    | .templateTail => return none
    | .templateMiddle =>
      advance
      return some []
    | _ => return some [← substitution p]
  advance
  return first :: rest.flatten

/-- `?type`, or `?` alone for any type. -/
def nullableType : Parser Node := do
  let start ← tokenStart
  expect "?"
  if ← seesAny [",", "\x7d", ")", ">", "=", "|"] then node .plain start []
  else node .plain start [← parse .type]

/-- A type that no operator or bracket has been put behind yet, and no `!` in front. -/
def bareType : Parser Node := do
  let start ← tokenStart
  let t ← token
  match t.lexeme with
  | .mark "?" => nullableType
  | .text _ | .number => tokenNode .plain
  | .templateWhole | .templateHead =>
    let parts ← templateParts (anyType (parse .type))
    node .plain start parts
  | .mark "-" =>
    advance
    if (← token).lexeme = .number then
      advance
      node .plain start []
    else unexpected
  | .mark "\x7b" =>
    if ← seesMappedType then anyType mappedType
    else
      let members ← anyType typeMembers
      node .plain start members
  | .mark "[" => tupleType
  | .mark "(" =>
    advance
    let inner ← anyType (parse .type)
    expect ")"
    node .plain start [inner]
  | .word "this" =>
    advance
    if (← seesWord "is") && !(← onNewLine) then
      advance
      node .plain start [← parse .type]
    else node .plain start []
  | .word "typeof" => if (← nextToken).word == "import" then importType else typeQuery
  | .word "import" => importType
  | .word "asserts" =>
    let next ← nextToken
    if (next.isName || next.word == "this") && !next.newline then assertion else typeReference
  | .word _ => typeReference
  | _ => unexpected

/-- A type that no operator or bracket has been put behind yet. -/
def atomicType : Parser Node := do
  let start ← tokenStart
  discard <| many do if ← eat "!" then return some () else return none
  node .plain start [← bareType]

/-- Can the token, which is no parenthesis, begin a type? -/
def startsBareType : Parser Bool := do
  let t ← token
  match t.lexeme with
  | .word w =>
    return t.isPlainName ||
      ["void", "null", "this", "typeof", "new", "true", "false", "import", "function"].contains w
  | .text _ | .number | .templateWhole | .templateHead => return true
  | .mark "-" => return (← nextToken).lexeme = .number
  | .mark m => return ["\x7b", "[", "<", "|", "&", "*", "?", "!", "..."].contains m
  | _ => return false

/-- Can the token begin a type? Behind a parenthesis a parameter may stand as well. -/
def startsType : Parser Bool := do
  unless ← sees "(" do return ← startsBareType
  ahead do
    discard <| many do if ← eat "(" then return some () else return none
    if (← token).isName || modifierWords.contains (← token).word then return true
    return (← seesAny [")", "@"]) || (← startsBareType)

/-- A type with its array, index and nullability marks. -/
def postfixType : Parser Node := do
  let start ← tokenStart
  let first ← atomicType
  iterate (fun inner => do
    if ← onNewLine then return none
    if ← sees "!" then
      advance
      return some (← node .plain start [inner])
    if ← sees "?" then
      if ← ahead (advance *> startsType) then return none
      advance
      return some (← node .plain start [inner])
    if ← eat "[" then
      let index ← if ← startsType then pure [← anyType (parse .type)] else pure []
      expect "]"
      return some (← node .plain start (inner :: index))
    return none) first

/-- The constraint of an inferred type; a `?` behind it makes it part of a conditional type. -/
def inferConstraint : Parser Node := do
  expectWord "extends"
  let bound ← plainType (parse .type)
  if !(← context).plainTypes && (← sees "?") then unexpected
  return bound

/-- `keyof`, `unique`, `readonly` and `infer` in front of a type. -/
def operatorType : Parser Node := do
  let start ← tokenStart
  discard <| many do
    if ← seesAnyWord ["keyof", "unique", "readonly"] then
      advance
      return some ()
    else return none
  let inner ← if ← seesWord "infer" then do
      let inferStart ← tokenStart
      advance
      discard bindingName
      let bound ← attempt inferConstraint
      node .plain inferStart bound.toList
    else anyType postfixType
  node .plain start [inner]

/-- Types joined by `mark`, which may also stand in front. -/
def joinedType (mark : String) (item : Parser Node) : Parser Node := do
  let start ← tokenStart
  discard <| eat mark
  let first ← item
  let rest ← many do if ← eat mark then some <$> item else return none
  node .plain start (first :: rest)

def unionType : Parser Node := joinedType "|" (joinedType "&" operatorType)

/-! ### Types -/

/-- Passes over the start of a parameter: a name, or a pattern. -/
def skipParameterStart : Parser Bool := do
  discard <| modifiers false false
  if (← token).isName || (← seesWord "this") then
    advance
    return true
  else if ← seesAny ["[", "\x7b"] then
    return (← attempt (parse .binding)).isSome
  else return false

/-- Does the parenthesis open the parameters of a function type? -/
def seesFunctionType : Parser Bool := ahead do
  advance
  if ← seesAny [")", "..."] then return true
  unless ← skipParameterStart do return false
  if ← seesAny [":", ",", "?", "="] then return true
  unless ← eat ")" do return false
  sees "=>"

def startsFunctionType : Parser Bool := do
  if (← sees "<") || (← seesWord "new") then return true
  if ← sees "(" then seesFunctionType
  else if ← seesWord "abstract" then return (← nextToken).word == "new"
  else return false

/-- `abstract new <types>(parameters) => result` -/
def functionType : Parser Node := do
  let start ← tokenStart
  discard <| eatWord "abstract"
  discard <| eatWord "new"
  let types ← typeParameters
  let params ← parameters
  expect "=>"
  let result ← anyType resultType
  node .plain start (types ++ [params, result])

/-- A type, with its conditional part. -/
def type : Parser Node := do
  if ← startsFunctionType then functionType
  else
    let start ← tokenStart
    let checked ← unionType
    if (← context).plainTypes || (← onNewLine) || !(← seesWord "extends") then return checked
    advance
    let bound ← plainType (parse .type)
    expect "?"
    let yes ← anyType (parse .type)
    expect ":"
    let no ← anyType (parse .type)
    node .plain start [checked, bound, yes, no]

end ScriptAtlas.Syntax
