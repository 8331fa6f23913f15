import ScriptAtlas.Graph.Basic
import Std.Data.HashMap
import Std.Data.HashSet

/-! # Import cycles

A depth-first search from every module in turn. The search keeps the path it is on, where each
module stands on it, and the targets that are left to look at in each module of the path. A target
on the path closes a cycle; a target never seen before is entered; all others were finished
earlier. -/

namespace ScriptAtlas.Cycle

/-- A module on the path, with the targets that are left. -/
structure Frame where
  module : String
  pending : List String
deriving DecidableEq, Repr, Inhabited

/-- A search under way. -/
structure Search where
  /-- The cycles found so far, each from its first module round to it again. -/
  cycles : Array (List String)
  visited : Std.HashSet String
  /-- The position on the path of each module there. -/
  position : Std.HashMap String Nat
  path : Array String
  /-- The innermost module first. -/
  stack : List Frame

namespace Search

def start : Search := ⟨#[], ∅, ∅, #[], []⟩

/-- Enters a module. -/
def enter (g : ModuleGraph) (s : Search) (id : String) : Search :=
  { s with
    visited := s.visited.insert id
    position := s.position.insert id s.path.size
    path := s.path.push id
    stack := ⟨id, g.targets id⟩ :: s.stack }

/-- Leaves the innermost module. -/
def leave (s : Search) (id : String) (stack : List Frame) : Search :=
  { s with position := s.position.erase id, path := s.path.pop, stack }

/-- Looks at one target of the innermost module. -/
def look (g : ModuleGraph) (s : Search) (target : String) : Search :=
  match s.position[target]? with
  | some i => { s with cycles := s.cycles.push (s.path.toList.drop i ++ [target]) }
  | none => if target ∈ s.visited then s else s.enter g target

/-- One step of the search; it rests when the path is empty. -/
def step (g : ModuleGraph) (s : Search) : Search :=
  match s.stack with
  | [] => s
  | ⟨id, []⟩ :: stack => s.leave id stack
  | ⟨id, t :: pending⟩ :: stack => look g { s with stack := ⟨id, pending⟩ :: stack } t

/-- At most `n` steps. -/
def run (g : ModuleGraph) : Nat → Search → Search
  | 0, s => s
  | n + 1, s => if s.stack.isEmpty then s else run g n (s.step g)

/-- Steps enough to look at every import once and to leave every module entered. -/
def bound (g : ModuleGraph) : Nat := 2 * g.edges.length + 1

/-- Searches from a module, unless it has been seen. -/
def searchFrom (g : ModuleGraph) (s : Search) (root : String) : Search :=
  if root ∈ s.visited then s else run g (bound g) (s.enter g root)

/-- Searches from every module. -/
def searchAll (g : ModuleGraph) : Search := g.keys.foldl (searchFrom g) start

end Search

/-- The cycles that the search meets, in this order. -/
def cycles (g : ModuleGraph) : List (List String) := (Search.searchAll g).cycles.toList

/-! ### Text -/

/-- Modules with arrows between them. -/
def arrows (ids : List String) : String := " -> ".intercalate ids

/-- A cycle on one line; of a long one, both ends. -/
def describe (cycle : List String) : String :=
  let n := cycle.length
  if 12 < n then
    s!"{arrows (cycle.take 5)} -> ... ({n - 10} intermediate) ... -> {arrows (cycle.drop (n - 5))}"
  else arrows cycle

end ScriptAtlas.Cycle
