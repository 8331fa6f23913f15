import ScriptAtlas.Source
import ScriptAtlas.Text.Slice

/-! # The functions of a file

`FunctionIndex.of` lists the functions of a syntax tree in the order in which they open, each with
its name, the span shown for it, the names it calls and its complexity, and lists the calls with
the function around them. One walk does it: a stack holds the functions that are open, and a
function that closes hands its calls and its decisions to the one around it. -/

namespace ScriptAtlas.Function

open Syntax

/-- One function of a file. -/
structure Entry where
  /-- `none` for an anonymous function. -/
  name : Option String
  span : Span
  /-- The names called anywhere inside, also by functions inside. -/
  calls : List String
  complexity : Nat
deriving DecidableEq, Repr, Inhabited

/-- One call by name. -/
structure CallSite where
  callee : String
  /-- The position of the innermost function around the call. -/
  enclosing : Option Nat
deriving DecidableEq, Repr, Inhabited

/-! ### Names and spans -/

/-- Is the node a function with a body? -/
def isFunction (n : Node) : Bool :=
  match n.kind with
  | .function _ hasBody => hasBody
  | .arrow => true
  | _ => false

/-- Can the node be the value of a declarator or property as a function? -/
def isFunctionValue (n : Node) : Bool :=
  match n.kind with
  | .function _ _ | .arrow => true
  | _ => false

def ownName? (n : Node) : Option String :=
  match n.kind with
  | .function name _ => name
  | _ => none

/-- Is `n` the value that `parent` names, told by its span? -/
def isValueOf (n parent : Node) : Bool :=
  match parent.value? with
  | some v => v.span = n.span && (isFunctionValue v || isMethod parent)
  | none => false
where
  isMethod (p : Node) : Bool :=
    match p.kind with
    | .method _ => true
    | _ => false

/-- The name that a node gives to its value. -/
def givenName? (parent : Node) : Option String :=
  match parent.kind with
  | .declarator name _ | .method name | .property name _ => name
  | _ => none

/-- The name of a function: its own, or else the one that the node around it gives it. -/
def nameOf (n : Node) (parent : Option Node) : Option String :=
  match ownName? n with
  | some name => some name
  | none => parent.bind fun p => if isValueOf n p then givenName? p else none

/-- Does a member show as a whole, key included? -/
def showsMember (parent : Node) : Bool :=
  match parent.kind with
  | .method _ => true
  | .property _ shorthand => shorthand
  | _ => false

/-- The span shown for a function: the whole member for methods, else the function itself. -/
def shownSpan (n : Node) (parent : Option Node) : Span :=
  match parent with
  | some p => if isValueOf n p && showsMember p then p.span else n.span
  | none => n.span

/-- The name a call goes by: a bare name or the property of a member. -/
def calleeName? (n : Node) : Option String :=
  match n.kind, n.children with
  | .call, callee :: _ =>
    match callee.kind with
    | .identifier name => some name
    | .member property => some property
    | _ => none
  | _, _ => none

/-- Does control flow branch at the node? -/
def isDecision (n : Node) : Bool := n.kind = .decision

/-! ### Filling entries -/

/-- A name put into a set of names. -/
def addName (names : List String) (name : String) : List String :=
  if names.contains name then names else name :: names

namespace Entry

def addCall (e : Entry) (callee : String) : Entry := { e with calls := addName e.calls callee }

def addDecision (e : Entry) : Entry := { e with complexity := e.complexity + 1 }

/-- Takes over the calls and decisions of a function inside. -/
def absorb (e inner : Entry) : Entry :=
  { e with
    calls := inner.calls.foldl addName e.calls
    complexity := e.complexity + (inner.complexity - 1) }

end Entry

/-! ### The walk -/

/-- What a walk has found so far, and the nodes and the functions that are open, innermost first. -/
structure Walk where
  ancestors : List Node
  frames : List Nat
  functions : Array Entry
  sites : Array CallSite
deriving Inhabited

namespace Walk

def start : Walk := ⟨[], [], #[], #[]⟩

/-- Opens a function. -/
def openFunction (w : Walk) (n : Node) : Walk :=
  let parent := w.ancestors.head?
  { w with
    frames := w.functions.size :: w.frames
    functions := w.functions.push ⟨nameOf n parent, shownSpan n parent, [], 1⟩ }

/-- Changes the innermost open function. -/
def onInnermost (w : Walk) (f : Entry → Entry) : Walk :=
  match w.frames with
  | i :: _ => { w with functions := w.functions.modify i f }
  | [] => w

/-- Notes a call. -/
def record (w : Walk) (callee : String) : Walk :=
  let w' := w.onInnermost (·.addCall callee)
  { w' with sites := w'.sites.push ⟨callee, w.frames.head?⟩ }

/-- Notes a decision. -/
def countDecision (w : Walk) : Walk := w.onInnermost (·.addDecision)

/-- Closes the innermost function; the one around it takes over its calls and decisions. -/
def closeFunction (w : Walk) : Walk :=
  match w.frames with
  | i :: frames =>
    Walk.onInnermost { w with frames } (·.absorb (w.functions.getD i default))
  | [] => w

/-- Notes what a node is. -/
def note (w : Walk) (n : Node) : Walk :=
  let w :=
    if isFunction n then w.openFunction n
    else match calleeName? n with
      | some callee => w.record callee
      | none => w
  if isDecision n then w.countDecision else w

/-- Enters a node. -/
def enter (w : Walk) (n : Node) : Walk :=
  let w := w.note n
  { w with ancestors := n :: w.ancestors }

/-- Leaves a node. -/
def leave (w : Walk) (n : Node) : Walk :=
  let w := { w with ancestors := w.ancestors.tail }
  if isFunction n then w.closeFunction else w

mutual

/-- Walks a tree. -/
def visit (w : Walk) : Node → Walk
  | .mk kind span children =>
    let n := Node.mk kind span children
    (visitAll (w.enter n) children).leave n

/-- Walks trees one after the other. -/
def visitAll (w : Walk) : List Node → Walk
  | [] => w
  | n :: ns => visitAll (visit w n) ns

end

end Walk

/-! ### Indexes -/

/-- The functions and calls of one file. -/
structure Index where
  functions : Array Entry
  sites : Array CallSite
deriving Inhabited

/-- The functions and calls of a tree. -/
def Index.of (tree : Node) : Index :=
  let w := Walk.start.visit tree
  ⟨w.functions, w.sites⟩

/-- The functions and calls of a file, if it can be read. -/
def Index.ofFile? (file : SourceFile) : Option Index := file.tree?.map Index.of

/-- A function that has a name, with the file it stands in. -/
structure Named where
  name : String
  file : String
  span : Span
  content : String
  calls : List String
  complexity : Nat
deriving DecidableEq, Repr, Inhabited

/-- An entry of a file, if it has a name. -/
def Named.of? (file : SourceFile) (e : Entry) : Option Named :=
  e.name.map fun name =>
    ⟨name, file.id, e.span, Text.slice file.content e.span.start e.span.stop, e.calls,
      e.complexity⟩

/-- The named functions of the file that an index was made from, in order. -/
def Index.named (index : Index) (file : SourceFile) : List Named :=
  index.functions.toList.filterMap (Named.of? file)

/-- The named functions of a file, in order; none if the file cannot be read. -/
def namedIn (file : SourceFile) : List Named :=
  match Index.ofFile? file with
  | some index => index.named file
  | none => []

/-- The named functions of all files. -/
def namedInAll (files : List SourceFile) : List Named := files.flatMap namedIn

end ScriptAtlas.Function
