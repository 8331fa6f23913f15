/-! # Syntax trees

A syntax tree is a uniform tree: every node has a kind, the span of source it covers and its
children in source order. The kind carries what the analyses and the grammar read off a node
without looking at its children; all other constructs are `plain`.

A declarator with an initialiser, a method and an object property hold their value as the last
child, and a call holds its callee as the first. -/

namespace ScriptAtlas.Syntax

/-- A half-open range of byte offsets. -/
structure Span where
  start : Nat
  stop : Nat
deriving DecidableEq, Repr, Inhabited

/-- Does the first span lie within the second? -/
def Span.Within (s t : Span) : Prop := t.start ≤ s.start ∧ s.stop ≤ t.stop

instance (s t : Span) : Decidable (s.Within t) := inferInstanceAs (Decidable (_ ∧ _))

/-- What a node is. -/
inductive Kind where
  /-- A function with its own name, if it has one; without a body it is only a signature. -/
  | function (name : Option String) (hasBody : Bool)
  | arrow
  /-- A call: the callee, then type arguments if any, then the arguments. -/
  | call
  | identifier (name : String)
  /-- `object.property` -/
  | member (property : String)
  /-- `object[key]` and `object.#name` -/
  | element
  /-- A string literal with its decoded value. -/
  | text (value : String)
  /-- A template without a function in front; its substitutions. -/
  | template
  /-- One `pattern = value` of a variable declaration; the name if the pattern is one. -/
  | declarator (binding : Option String) (hasInit : Bool)
  /-- A class method; the key if it is a plain name. -/
  | method (key : Option String)
  /-- An object property; the key if it is a plain name, and whether it is written as a method. -/
  | property (key : Option String) (shorthand : Bool)
  /-- A construct at which control flow branches. -/
  | decision
  /-- `import … from source` -/
  | importFrom (source : String)
  /-- `export * from source` -/
  | exportAll (source : String)
  /-- `export { … } from source` -/
  | exportFrom (source : String)
  /-- An export that names no other module. -/
  | exported
  /-- `import.meta` -/
  | importMeta
  /-- `import(source, options)` -/
  | importCall
  | typeArguments
  /-- An expression with explicit type arguments that is not called. -/
  | instantiation
  | array
  | hole
  | object
  | spread
  /-- `target = value`, also with a compound operator. -/
  | assign
  /-- An expression inside a type assertion or before `!`; the expression is the first child. -/
  | asserted
  /-- `name = value` among object properties, before it is known to be a pattern. -/
  | initialized
  | plain
deriving DecidableEq, Repr, Inhabited

/-- A syntax tree. -/
inductive Node where
  | mk (kind : Kind) (span : Span) (children : List Node)
deriving Inhabited

namespace Node

def kind : Node → Kind
  | mk k _ _ => k

def span : Node → Span
  | mk _ s _ => s

def children : Node → List Node
  | mk _ _ cs => cs

/-- A node without children. -/
def leaf (kind : Kind) (span : Span) : Node := mk kind span []

/-- Is the node a bare identifier? -/
def isIdentifier (n : Node) : Bool :=
  match n.kind with
  | .identifier _ => true
  | _ => false

/-- Is the value of the node known text? -/
def isPlainText (n : Node) : Bool :=
  match n.kind with
  | .text _ => true
  | .template => n.children.isEmpty
  | _ => false

/-- The arguments of a call. -/
def arguments (n : Node) : List Node :=
  n.children.tail.dropWhile fun c => c.kind = .typeArguments

mutual

/-- Does a node of kind `k` occur in the tree? -/
def mentions (k : Kind) : Node → Bool
  | mk k' _ children => k' = k || anyMentions k children

def anyMentions (k : Kind) : List Node → Bool
  | [] => false
  | n :: ns => n.mentions k || anyMentions k ns

end

/-- The child that a declarator, method or property gives its name to. -/
def value? (n : Node) : Option Node :=
  match n.kind with
  | .declarator _ true | .method _ | .property _ _ => n.children.getLast?
  | _ => none

end Node

end ScriptAtlas.Syntax
