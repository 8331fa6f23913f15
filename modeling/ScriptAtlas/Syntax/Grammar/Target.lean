import ScriptAtlas.Syntax.Tree

/-! # Assignment targets

An expression before `=` is read first and becomes a target afterwards. Names, members and type
assertions around them are targets; array and object literals are patterns if their parts are.
An object literal may hold `name = value`, which makes sense only in a pattern: in a literal that
stays one, the value is dropped. -/

namespace ScriptAtlas.Syntax.Node

/-- The expression inside type assertions. -/
def unasserted : Node → Node
  | mk .asserted _ (e :: _) => e.unasserted
  | n => n

/-- Is the node a name or a member? -/
def isReference (n : Node) : Bool :=
  match n.kind with
  | .identifier _ | .member _ | .element => true
  | _ => false

/-- Can a value be stored here without taking it apart? -/
def isSimpleTarget (n : Node) : Bool := n.unasserted.isReference

mutual

/-- The node as a target; `none` if it cannot be one. -/
def asTarget? : Node → Option Node
  | mk .array s items => (targetItems? items).map (mk .array s)
  | mk .object s items => (targetItems? items).map (mk .object s)
  | n => if n.isSimpleTarget then some n else none

/-- A target with a default, or a target. -/
def asDefaulted? : Node → Option Node
  | mk .assign s children => some (mk .assign s children)
  | mk .initialized s children => some (mk .plain s children)
  | mk .hole s children => some (mk .hole s children)
  | mk (.property k false) s children => (lastTarget? children).map (mk (.property k false) s)
  | mk (.property _ true) _ _ => none
  | mk .array s items => (targetItems? items).map (mk .array s)
  | mk .object s items => (targetItems? items).map (mk .object s)
  | n => if n.isSimpleTarget then some n else none

/-- The value of a property is a target, the key in front of it is not. -/
def lastTarget? : List Node → Option (List Node)
  | [] => some []
  | [n] => (asDefaulted? n).map ([·])
  | n :: ns => (lastTarget? ns).map (n :: ·)

/-- The parts of a pattern; what is spread must stand last. -/
def targetItems? : List Node → Option (List Node)
  | [] => some []
  | [mk .spread s [e]] => (asTarget? e).map fun t => [mk .spread s [t]]
  | n :: ns => do return (← asDefaulted? n) :: (← targetItems? ns)

end

mutual

/-- The tree without the values of `name = value` in literals that are no patterns. -/
def settled : Node → Node
  | mk .initialized s _ => mk .plain s []
  | mk k s children => mk k s (settledAll children)

def settledAll : List Node → List Node
  | [] => []
  | n :: ns => n.settled :: settledAll ns

end

end ScriptAtlas.Syntax.Node
