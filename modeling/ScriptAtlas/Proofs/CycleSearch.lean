import ScriptAtlas.Graph.Cycle
import ScriptAtlas.Proofs.ImportRelation

/-! # The search for import cycles

A step of the search is one of four moves: it leaves a module, closes a cycle, passes over a module
that is finished, or enters a new one (`Move`). Each move takes work off (`Move.work_lt`), so the
bound on the steps is enough and the search ends with an empty path. `searchAll_induction` proves
what all moves keep, from the start to the end. -/

namespace ScriptAtlas.Cycle

open ModuleGraph

namespace Search

variable {g : ModuleGraph} {s s' : Search}

/-! ### Moves -/

/-- What one step does. -/
inductive Move (g : ModuleGraph) (s : Search) : Search → Prop
  | leave {id : String} {stack : List Frame} (hs : s.stack = ⟨id, []⟩ :: stack) :
      Move g s (s.leave id stack)
  | close {id t : String} {pending : List String} {stack : List Frame} {i : Nat}
      (hs : s.stack = ⟨id, t :: pending⟩ :: stack) (hi : s.position[t]? = some i) :
      Move g s
        { s with
          stack := ⟨id, pending⟩ :: stack
          cycles := s.cycles.push (s.path.toList.drop i ++ [t]) }
  | skip {id t : String} {pending : List String} {stack : List Frame}
      (hs : s.stack = ⟨id, t :: pending⟩ :: stack) (hp : s.position[t]? = none)
      (hv : t ∈ s.visited) : Move g s { s with stack := ⟨id, pending⟩ :: stack }
  | enter {id t : String} {pending : List String} {stack : List Frame}
      (hs : s.stack = ⟨id, t :: pending⟩ :: stack) (hp : s.position[t]? = none)
      (hv : t ∉ s.visited) :
      Move g s (Search.enter g { s with stack := ⟨id, pending⟩ :: stack } t)

theorem move_step (g : ModuleGraph) (hs : s.stack ≠ []) : Move g s (s.step g) := by
  match hst : s.stack with
  | [] => exact absurd hst hs
  | ⟨id, []⟩ :: stack =>
    have h : s.step g = s.leave id stack := by simp only [step, hst]
    exact h ▸ .leave hst
  | ⟨id, t :: pending⟩ :: stack =>
    have h : s.step g = look g { s with stack := ⟨id, pending⟩ :: stack } t := by
      simp only [step, hst]
    rw [h, look]
    split
    · next i hi => exact .close hst hi
    · next hp =>
      split
      · next hv => exact .skip hst hp hv
      · next hv => exact .enter hst hp hv

/-! ### The end of the search -/

/-- The number of imports of the modules that have not been entered. -/
def unseen (visited : Std.HashSet String) : List ModuleEntry → Nat
  | [] => 0
  | e :: es => (if e.id ∈ visited then 0 else e.targets.length) + unseen visited es

/-- The steps that the modules on the path still need. -/
def pendingSteps : List Frame → Nat
  | [] => 0
  | f :: fs => 2 * f.pending.length + 1 + pendingSteps fs

/-- A bound on the steps to come: two for each import not looked at, one for each open module. -/
def work (g : ModuleGraph) (s : Search) : Nat :=
  2 * unseen s.visited g.entries + pendingSteps s.stack

theorem unseen_le_of_subset {visited visited' : Std.HashSet String}
    (h : ∀ x ∈ visited, x ∈ visited') (es : List ModuleEntry) :
    unseen visited' es ≤ unseen visited es := by
  induction es with
  | nil => exact le_rfl
  | cons e es ih =>
    simp only [unseen]
    by_cases hv : e.id ∈ visited
    · simp [hv, h _ hv, ih]
    · rw [if_neg hv]
      split <;> omega

/-- Entering a module takes its imports from those unseen. -/
theorem unseen_insert {x : String} {visited : Std.HashSet String} (hx : x ∉ visited)
    (g : ModuleGraph) :
    (g.targets x).length + unseen (visited.insert x) g.entries ≤ unseen visited g.entries := by
  unfold ModuleGraph.targets
  generalize g.entries = es
  induction es with
  | nil => simp [unseen]
  | cons e es ih =>
    by_cases he : e.id = x
    · have hle : unseen (visited.insert x) es ≤ unseen visited es :=
        unseen_le_of_subset (fun _ hy => Std.HashSet.mem_insert.mpr (Or.inr hy)) es
      simp only [unseen, he, Std.HashSet.mem_insert_self, if_true, if_neg hx, decide_true,
        List.find?_cons_of_pos]
      omega
    · rw [List.find?_cons_of_neg (by simpa using he)]
      simp only [unseen, Std.HashSet.mem_insert, beq_iff_eq, Ne.symm he, false_or]
      omega

theorem Move.work_lt (h : Move g s s') : work g s' < work g s := by
  cases h with
  | leave hs => simp only [work, Search.leave, hs, pendingSteps, List.length_nil]; omega
  | close hs hi => simp only [work, hs, pendingSteps, List.length_cons]; omega
  | skip hs hp hv => simp only [work, hs, pendingSteps, List.length_cons]; omega
  | enter hs hp hv =>
    have := unseen_insert hv g
    simp only [work, Search.enter, hs, pendingSteps, List.length_cons]; omega

theorem stack_run_eq_nil {n : Nat} (h : work g s ≤ n) : (run g n s).stack = [] := by
  induction n generalizing s with
  | zero =>
    cases hs : s.stack with
    | nil => exact hs
    | cons f stack => simp [work, hs, pendingSteps] at h
  | succ n ih =>
    unfold run
    split
    · next hs => simpa using hs
    · next hs =>
      have := (move_step g (by simpa using hs)).work_lt
      exact ih (by omega)

theorem unseen_le_length_edges (visited : Std.HashSet String) (g : ModuleGraph) :
    unseen visited g.entries ≤ g.edges.length := by
  unfold edges
  induction g.entries with
  | nil => exact le_rfl
  | cons e es ih =>
    simp only [unseen, List.flatMap_cons, List.length_append, List.length_map]
    split <;> omega

theorem work_enter_le {root : String} (hs : s.stack = []) (hv : root ∉ s.visited) :
    work g (s.enter g root) ≤ bound g := by
  have h := unseen_insert hv g
  have h' := unseen_le_length_edges s.visited g
  simp only [work, enter, hs, pendingSteps, bound]
  omega

/-! ### Induction along the search -/

section Induction

variable {P : Search → Prop} (hmove : ∀ s s', P s → Move g s s' → P s')

include hmove

theorem run_induction (n : Nat) (h : P s) : P (run g n s) := by
  induction n generalizing s with
  | zero => exact h
  | succ n ih =>
    unfold run
    split
    · exact h
    · next hs => exact ih (hmove s _ h (move_step g (by simpa using hs)))

variable (hroot : ∀ s root, P s → s.stack = [] → root ∉ s.visited → P (s.enter g root))

include hroot

theorem searchFrom_induction (root : String) (h : P s) (hs : s.stack = []) :
    P (searchFrom g s root) ∧ (searchFrom g s root).stack = [] := by
  unfold searchFrom
  split
  · exact ⟨h, hs⟩
  · next hv =>
    exact ⟨run_induction hmove _ (hroot s root h hs hv), stack_run_eq_nil (work_enter_le hs hv)⟩

theorem foldl_searchFrom_induction (roots : List String) (h : P s) (hs : s.stack = []) :
    P (roots.foldl (searchFrom g) s) ∧ (roots.foldl (searchFrom g) s).stack = [] := by
  induction roots generalizing s with
  | nil => exact ⟨h, hs⟩
  | cons root roots ih =>
    obtain ⟨h, hs⟩ := searchFrom_induction hmove hroot root h hs
    exact ih h hs

/-- What holds at the start, and is kept by the moves and by entering a new module with an empty
path, holds at the end, when the path is empty again. -/
theorem searchAll_induction (hstart : P start) : P (searchAll g) ∧ (searchAll g).stack = [] :=
  foldl_searchFrom_induction hmove hroot g.keys hstart rfl

end Induction

/-! ### Visited modules -/

theorem Move.mem_visited (h : Move g s s') {x : String} (hx : x ∈ s.visited) : x ∈ s'.visited := by
  cases h with
  | leave hs => exact hx
  | close hs hi => exact hx
  | skip hs hp hv => exact hx
  | enter hs hp hv => exact Std.HashSet.mem_insert.mpr (Or.inr hx)

theorem mem_visited_searchFrom {root x : String} (hx : x ∈ s.visited ∨ x = root) :
    x ∈ (searchFrom g s root).visited := by
  unfold searchFrom
  split
  · next hv => exact hx.elim id fun he => he ▸ hv
  · refine run_induction (P := fun s => x ∈ s.visited) (fun _ _ h hm => hm.mem_visited h) _ ?_
    rcases hx with hx | rfl
    · exact Std.HashSet.mem_insert.mpr (Or.inr hx)
    · exact Std.HashSet.mem_insert_self

theorem mem_visited_foldl {roots : List String} {x : String} (hx : x ∈ s.visited ∨ x ∈ roots) :
    x ∈ (roots.foldl (searchFrom g) s).visited := by
  induction roots generalizing s with
  | nil => simpa using hx
  | cons root roots ih =>
    refine ih ?_
    rcases hx with hx | hx
    · exact Or.inl (mem_visited_searchFrom (Or.inl hx))
    · rcases List.mem_cons.mp hx with hx | hx
      · exact Or.inl (mem_visited_searchFrom (Or.inr hx))
      · exact Or.inr hx

theorem mem_visited_searchAll {x : String} (hx : x ∈ g.keys) : x ∈ (searchAll g).visited :=
  mem_visited_foldl (Or.inr hx)

end Search

end ScriptAtlas.Cycle
