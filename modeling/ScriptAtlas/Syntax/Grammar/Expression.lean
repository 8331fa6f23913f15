import ScriptAtlas.Syntax.Grammar.Class
import ScriptAtlas.Syntax.Grammar.Tag
import ScriptAtlas.Syntax.Grammar.Target

/-! # Expressions

Expressions by falling precedence: assignments and arrow functions, conditional expressions, binary
operators, unary operators, calls and members, and the atoms. Parentheses leave no node. -/

namespace ScriptAtlas.Syntax

/-! ### Literals of several parts -/

/-- An argument of a call or an item of an array; `...` spreads it. -/
def spreadable : Parser Node := do
  let start ← tokenStart
  if ← eat "..." then
    let e ← parseAssignment
    node .spread start [e]
  else parseAssignment

/-- An item of an array literal, which may be missing. -/
def arrayItem : Parser Node := do
  if ← sees "," then return .leaf .hole ⟨← tokenStart, ← tokenStart⟩
  else spreadable

def arrayLiteral : Parser Node := do
  let start ← tokenStart
  expect "["
  let items ← bracketed (commaList "]" arrayItem)
  expect "]"
  node .array start items

/-- A method, getter or setter of an object literal, from its parameters on. -/
def propertyMethod (start : Nat) (key : Key) (isMethod isAsync isGenerator : Bool) :
    Parser Node := do
  let body ← functionTail (← tokenStart) none isAsync isGenerator .body
  node (.property key.name isMethod) start (key.nodes ++ [body])

/-- A property of an object literal. -/
def objectProperty : Parser Node := do
  let start ← tokenStart
  if ← sees "..." then return ← spreadable
  let mods ← modifiers false false
  if (← takeModifier "get") || (← takeModifier "set") then
    return ← propertyMethod start (← propertyKey) false false false
  let isGenerator ← eat "*"
  let t ← token
  let isReference ← seesReference
  let key ← propertyKey
  if isGenerator || (← seesAny ["(", "<"]) then
    propertyMethod start key true (mods.contains "async") isGenerator
  else if isReference && !(← sees ":") then
    let name ← node (.identifier t.word) t.start []
    if ← eat "=" then
      let value ← bracketed parseAssignment
      node .initialized start [name, value]
    else node (.property key.name false) start [name]
  else
    expect ":"
    let value ← parseAssignment
    node (.property key.name false) start (key.nodes ++ [value])

def objectLiteral : Parser Node := do
  let start ← tokenStart
  expect "\x7b"
  let properties ← bracketed (commaList "\x7d" objectProperty)
  expect "\x7d"
  node .object start properties

/-- A template, its substitutions in order. -/
def templateLiteral : Parser (List Node) := templateParts (bracketed (parse .expression))

/-- An expression in parentheses. -/
def parenthesized : Parser Node := do
  expect "("
  let start ← tokenStart
  let first ← bracketed parseAssignment
  let rest ← bracketed <| many do if ← eat "," then some <$> parseAssignment else return none
  let inner ← if rest.isEmpty then pure first else node .plain start (first :: rest)
  expect ")"
  return inner

/-- The arguments of a call, in parentheses. -/
def arguments : Parser (List Node) := do
  expect "("
  let args ← bracketed (commaList ")" spreadable)
  expect ")"
  return args

/-! ### Atoms -/

/-- `import(source, options)`, from the parenthesis on. -/
def importCall (start : Nat) : Parser Node := do
  expect "("
  let (source, options) ← bracketed do
    let source ← parseAssignment
    let options ← if (← eat ",") && !(← sees ")") then pure [← parseAssignment] else pure []
    discard <| eat ","
    return (source, options)
  expect ")"
  node .importCall start (source :: options)

/-- `import.meta`, `import(…)` and `import.defer(…)` -/
def importExpression : Parser Node := do
  let start ← tokenStart
  advance
  if ← eat "." then
    if ← seesAnyWord ["defer", "source"] then
      advance
      importCall start
    else
      expectWord "meta"
      node .importMeta start []
  else importCall start

/-- A regular expression whose `/` is under the cursor. -/
def regularExpression : Parser Node := do
  reread Scanned.asRegex
  if (← token).lexeme = .regex then tokenNode .plain else unexpected

/-! ### Members and calls -/

/-- Words and marks that can begin an expression. -/
def startsExpression : Parser Bool := do
  let t ← token
  match t.lexeme with
  | .word w =>
    return isName w ||
      ["this", "super", "null", "true", "false", "function", "class", "new", "delete", "typeof",
        "void", "import"].contains w
  | .mark m =>
    return ["(", "[", "\x7b", "/", "/=", "+", "-", "~", "!", "++", "--", "<", "@"].contains m
  | .ending | .stray => return false
  | _ => return true

/-- How tight a binary operator binds, and `0` for what is none. -/
def bindingPower (t : Token) : Nat :=
  match t.lexeme with
  | .mark m =>
    if m == "??" then 1
    else if m == "||" then 2
    else if m == "&&" then 3
    else if m == "|" then 4
    else if m == "^" then 5
    else if m == "&" then 6
    else if ["==", "!=", "===", "!=="].contains m then 7
    else if ["<", ">", "<=", ">="].contains m then 8
    else if ["<<", ">>", ">>>"].contains m then 9
    else if m == "+" || m == "-" then 10
    else if ["*", "/", "%"].contains m then 11
    else if m == "**" then 12
    else 0
  | .word w => if ["in", "instanceof", "as", "satisfies"].contains w then 8 else 0
  | _ => 0

/-- Is the token an operator between two operands that computes or compares? -/
def isBinaryOperator (t : Token) : Bool :=
  bindingPower t > 3 && t.word != "as" && t.word != "satisfies"

/-- Type arguments in an expression: they count only if what follows cannot go on as an operand
of `>`. -/
def expressionTypeArguments : Parser Node := do
  reread Scanned.asAngle
  let start ← tokenStart
  expect "<"
  let items ← commaList ">" (anyType (parse .type))
  reread Scanned.asOperator
  expect ">"
  let args ← node .typeArguments start items
  let t ← token
  if t.lexeme = .mark "(" || t.opensTemplate then return args
  if ← seesAny ["<", ">", "+", "-"] then unexpected
  let isOperator := bindingPower t > 0 && (t.word != "in" || (← context).allowIn)
  if t.newline || isOperator || !(← startsExpression) then return args
  unexpected

/-- An expression with members and calls behind it, and whether `?.` occurs among them. -/
structure Chain where
  node : Node
  optional : Bool

/-- The expression under type arguments, and those. -/
def uninstantiated (n : Node) : Node × List Node :=
  match n with
  | .mk .instantiation _ (e :: args) => (e, args)
  | n => (n, [])

/-- `.name` or `.#name`, from the name on. -/
def memberName (start : Nat) (object : Node) : Parser Node := do
  match (← token).lexeme with
  | .privateName _ =>
    advance
    node .element start [object]
  | .word w =>
    advance
    node (.member w) start [object]
  | _ => unexpected

/-- `[expression]` -/
def elementIndex (start : Nat) (object : Node) : Parser Node := do
  expect "["
  let index ← bracketed (parse .expression)
  expect "]"
  node .element start [object, index]

/-- Does `?.` go on with a member, not with a call? -/
def seesOptionalMember : Parser Bool := ahead do
  expect "?."
  let t ← token
  match t.lexeme with
  | .word _ | .privateName _ | .templateWhole | .templateHead | .mark "[" => return true
  | _ => return false

/-- A template as the argument of a function. -/
def taggedTemplate (start : Nat) (function : Node) : Parser Node := do
  let (callee, args) := uninstantiated function
  let parts ← templateLiteral
  node .plain start (callee :: args ++ parts)

/-- One more member behind an expression. -/
def memberStep (start : Nat) (c : Chain) : Parser (Option Chain) := do
  let t ← token
  let continued (n : Node) : Option Chain := some { c with node := n }
  match t.lexeme with
  | .mark "." =>
    advance
    return continued (← memberName start c.node)
  | .mark "?." =>
    unless ← seesOptionalMember do return none
    advance
    let n ←
      if ← sees "[" then elementIndex start c.node
      else if (← token).opensTemplate then taggedTemplate start c.node
      else memberName start c.node
    return some ⟨n, true⟩
  | .mark "[" =>
    if (← context).inDecorator then return none
    return continued (← elementIndex start c.node)
  | .mark "!" =>
    if t.newline then return none
    advance
    return continued (← node .asserted start [c.node])
  | .templateWhole | .templateHead => return continued (← taggedTemplate start c.node)
  | .mark "<" | .mark "<<" =>
    match ← attempt expressionTypeArguments with
    | some args => return continued (← node .instantiation start [c.node, args])
    | none => return none
  | _ => return none

/-- All members behind an expression. -/
def members (start : Nat) (c : Chain) : Parser Chain := iterate (memberStep start) c

/-- A call, from the arguments on. -/
def callWith (start : Nat) (callee : Node) (types : List Node) : Parser Node := do
  let (function, args) := uninstantiated callee
  let types := if types.isEmpty then args else types
  let values ← arguments
  node .call start (function :: types ++ values)

/-- One more call, and the members behind it. -/
def callStep (start : Nat) (c : Chain) : Parser (Option Chain) := do
  if ← eat "?." then
    let types := (← attempt expressionTypeArguments).toList
    let n ←
      if (← token).opensTemplate then taggedTemplate start c.node
      else callWith start c.node types
    some <$> members start ⟨n, true⟩
  else if ← sees "(" then
    let n ← callWith start c.node []
    some <$> members start { c with node := n }
  else return none

/-- `new callee(arguments)` and `new.target` -/
def newExpression : Parser Node := do
  let start ← tokenStart
  advance
  if ← eat "." then
    expectWord "target"
    node .plain start []
  else
    let calleeStart ← tokenStart
    let first ← parse .atom
    let chain ← members calleeStart ⟨first, false⟩
    if chain.optional then unexpected
    let (function, types) := uninstantiated chain.node
    let args ← if ← sees "(" then arguments else pure []
    node .plain start (function :: types ++ args)

/-- An expression that is not composed of smaller ones by operators. -/
def atom : Parser Node := do
  let start ← tokenStart
  let t ← token
  match t.lexeme with
  | .number => tokenNode .plain
  | .text value => tokenNode (.text value)
  | .templateWhole | .templateHead =>
    let parts ← templateLiteral
    node .template start parts
  | .mark "[" => arrayLiteral
  | .mark "\x7b" => objectLiteral
  | .mark "(" => parenthesized
  | .mark "/" | .mark "/=" => regularExpression
  | .mark "<" => if (← read).dialect.jsx then parse (.tag false) else unexpected
  | .mark "@" =>
    let decs ← decorators
    discard <| modifiers false false
    classFrom start decs
  | .word w =>
    if w == "function" then functionFrom start false .body
    else if w == "class" then classFrom start []
    else if w == "new" then newExpression
    else if w == "import" then importExpression
    else if ["this", "super", "null", "true", "false"].contains w then tokenNode .plain
    else if ← seesPair "async" "function" then function .body
    else if ← seesReference then tokenNode (.identifier w)
    else unexpected
  | _ => unexpected

/-- A chain as one expression: what holds `?.` ends here. -/
def Chain.close (c : Chain) : Node :=
  let whole (n : Node) : Node := .mk .plain n.span [n]
  if c.optional then
    match c.node with
    | .mk .instantiation s (e :: args) => .mk .instantiation s (whole e :: args)
    | n => whole n
  else c.node

def leftSide : Parser Node := do
  let start ← tokenStart
  let first ← parse .atom
  let chain ← members start ⟨first, false⟩
  let chain ← iterate (callStep start) chain
  return chain.close

/-! ### Unary and binary operators -/

/-- Is the token a word, number or string on the same line, and no operator? -/
def seesOperandOnLine : Parser Bool := do
  let t ← token
  return !t.newline && !(["in", "instanceof"].contains t.word) &&
    (t.isWord || t.isText || t.lexeme = .number)

/-- Does `await` stand for the operator? Where it need not, it does so before an operand other than
`of`. -/
def seesAwait : Parser Bool := do
  unless ← seesWord "await" do return false
  if (← context).inAwait then return true
  ahead do
    advance
    return (← seesOperandOnLine) && !(← seesWord "of")

/-- `++` and `--`, before or behind their target. -/
def update : Parser Node := do
  let start ← tokenStart
  if ← seesAny ["++", "--"] then
    advance
    let target ← parse .unary
    unless target.isSimpleTarget do throw ⟨target.span.start⟩
    node .plain start [target]
  else
    let target ← leftSide
    if (← seesAny ["++", "--"]) && !(← onNewLine) then
      unless target.isSimpleTarget do throw ⟨target.span.start⟩
      advance
      node .plain start [target]
    else return target

/-- `<type>expression` -/
def typeAssertion : Parser Node := do
  let start ← tokenStart
  expect "<"
  let type ← parse .type
  expect ">"
  let e ← parse .unary
  node .asserted start [e, type]

def unary : Parser Node := do
  let start ← tokenStart
  if (← seesAny ["+", "-", "~", "!"]) || (← seesAnyWord ["delete", "void", "typeof"]) then
    advance
    let e ← parse .unary
    node .plain start [e]
  else if ← sees "<" then
    if (← read).dialect.jsx then parse (.tag false) else typeAssertion
  else if ← seesAwait then
    advance
    let e ← within (fun c => { c with inAwait := true }) (parse .unary)
    node .plain start [e]
  else update

/-- `#name in expression`, behind an operator of the given power. -/
def privateIn (level : Nat) : Parser Node := do
  let start ← tokenStart
  if level ≥ 8 then unexpected
  advance
  unless ← seesWord "in" do unexpected
  advance
  let object ← parse (.binary 8)
  node .plain start [object]

/-- One more operator and its right operand, if it binds tighter than `level`. Powers associate
to the right. -/
def binaryStep (start level : Nat) (left : Node) : Parser (Option Node) := do
  reread Scanned.asOperator
  let t ← token
  let power := bindingPower t
  if power == 0 || power < level || (power == level && t.mark != "**") then return none
  if t.word == "in" && !(← context).allowIn then return none
  if t.word == "as" || t.word == "satisfies" then
    if t.newline then return none
    advance
    let type ← anyType (parse .type)
    return some (← node .asserted start [left, type])
  advance
  let right ← parse (.binary power)
  let kind := if t.mark == "&&" || t.mark == "||" then .decision else .plain
  return some (← node kind start [left, right])

def binary (level : Nat) : Parser Node := do
  let start ← tokenStart
  let isPrivate := match (← token).lexeme with
    | .privateName _ => true
    | _ => false
  let left ← if isPrivate && (← context).allowIn then privateIn level else unary
  iterate (binaryStep start level) left

/-! ### Assignments -/

def assignmentMarks : List String :=
  ["=", "+=", "-=", "*=", "/=", "%=", "**=", "<<=", ">>=", ">>>=", "&=", "|=", "^=", "&&=", "||=",
   "??="]

/-- Does `yield` stand for the operator? -/
def seesYield : Parser Bool := do
  unless ← seesWord "yield" do return false
  if (← context).inYield then return true
  ahead (advance *> seesOperandOnLine)

/-- Can nothing follow `yield` here? -/
def endsYield : Parser Bool := do
  let t ← token
  return t.isEnding || t.word == "in" ||
    [";", "\x7d", ")", "]", ":", ","].contains t.mark

def yieldExpression : Parser Node := do
  let start ← tokenStart
  advance
  let operand ← within (fun c => { c with inYield := true }) do
    if ← onNewLine then return []
    let delegates ← eat "*"
    if !delegates && (← endsYield) then return []
    return [← parseAssignment]
  node .plain start operand

/-- `? expression : expression` behind a condition, if it is there. -/
def conditionalRest (start : Nat) (arrowResult : Bool) (condition : Node) : Parser Node := do
  if ← eat "?" then
    let yes ← within (fun c => { c with allowIn := true }) (parse (.assignment false))
    expect ":"
    let no ← parse (.assignment arrowResult)
    node .decision start [condition, yes, no]
  else return condition

/-- What stands before an assignment operator, as its target. -/
def targetOf (mark : String) (left : Node) : Parser Node := do
  if mark == "=" then
    match left.asTarget? with
    | some target => return target
    | none => throw ⟨left.span.start⟩
  else if left.isSimpleTarget then return left
  else throw ⟨left.span.start⟩

def assignment (arrowResult : Bool) : Parser Node := do
  if ← seesYield then return ← yieldExpression
  if let some arrow ← parenthesizedArrow? arrowResult then return arrow
  if let some arrow ← asyncSimpleArrow? arrowResult then return arrow
  let start ← tokenStart
  let left ← parse (.binary 0)
  let mark := (← token).mark
  if left.isIdentifier && mark == "=>" then simpleArrow start left false arrowResult
  else if assignmentMarks.contains mark then
    let target ← targetOf mark left
    advance
    let value ← parse (.assignment arrowResult)
    node .assign start [target, value]
  else conditionalRest start arrowResult left

/-- Expressions with commas between them. -/
def expression : Parser Node := do
  let start ← tokenStart
  let first ← parseAssignment
  let rest ← many do if ← eat "," then some <$> parseAssignment else return none
  if rest.isEmpty then return first else node .plain start (first :: rest)

end ScriptAtlas.Syntax
