import ScriptAtlas.Proofs.CycleSoundness
import ScriptAtlas.Proofs.ReportRebuilding

/-! # The search for cycles turn by turn

The search of a whole graph is taken apart into turns (`Sweep.next?`): a step while a module is
open, and else the next root. No bound is set on the turns. They end all the same, since each takes
a root or work off (`wellFounded_next?`). So the turns of a graph are a list (`history`), and what
holds at every turn or is done over all of them can be read off it. `Search.searchAll`, which has a
bound, goes through these turns (`run_mem_history_start`) and ends where they end (`final_start`).

The imports looked at so far and those ahead are together the imports of the graph after every turn
(`Turn.looked_perm`), and a module is pushed when it is visited (`Turn.pushed?_eq`). -/

namespace ScriptAtlas.Cycle

open ModuleGraph Search

/-- A search of all modules under way: those not tried as roots yet, and the search so far. -/
structure Sweep where
  roots : List String
  search : Search

namespace Sweep

variable {g : ModuleGraph} {w w' : Sweep}

/-! ### Turns -/

def start (g : ModuleGraph) : Sweep := ⟨g.keys, Search.start⟩

/-- One turn: a step while a module is open, and else the next root, which is passed over if it was
visited. There is none when nothing is open and the roots are used up. -/
def next? (g : ModuleGraph) (w : Sweep) : Option Sweep :=
  if w.search.stack.isEmpty then
    match w.roots with
    | [] => none
    | root :: roots =>
      some ⟨roots, if root ∈ w.search.visited then w.search else w.search.enter g root⟩
  else some ⟨w.roots, w.search.step g⟩

/-- What one turn does. -/
inductive Turn (g : ModuleGraph) : Sweep → Sweep → Prop
  | pass {root : String} {roots : List String} {s : Search} (hs : s.stack = [])
      (hv : root ∈ s.visited) : Turn g ⟨root :: roots, s⟩ ⟨roots, s⟩
  | root {root : String} {roots : List String} {s : Search} (hs : s.stack = [])
      (hv : root ∉ s.visited) : Turn g ⟨root :: roots, s⟩ ⟨roots, s.enter g root⟩
  | move {roots : List String} {s s' : Search} (hm : Move g s s') : Turn g ⟨roots, s⟩ ⟨roots, s'⟩

theorem next?_of_stack_ne_nil (hs : w.search.stack ≠ []) :
    w.next? g = some ⟨w.roots, w.search.step g⟩ := by
  rw [next?, if_neg (by simpa using hs)]

theorem turn_of_next? (h : w.next? g = some w') : Turn g w w' := by
  obtain ⟨roots, s⟩ := w
  by_cases hs : s.stack = []
  · rw [next?, if_pos (by simpa using hs)] at h
    cases roots with
    | nil => cases h
    | cons root roots =>
      cases h
      dsimp only
      split
      · next hv => exact .pass hs hv
      · next hv => exact .root hs hv
  · rw [next?_of_stack_ne_nil hs] at h
    cases h
    exact .move (move_step g hs)

theorem next?_eq_none_iff : w.next? g = none ↔ w.search.stack = [] ∧ w.roots = [] := by
  obtain ⟨roots, s⟩ := w
  by_cases hs : s.stack = []
  · cases roots <;> simp [next?, hs]
  · simp [next?_of_stack_ne_nil (w := ⟨roots, s⟩) hs, hs]

/-! ### The end of the turns -/

/-- A turn takes a root off, or it takes work off and leaves the roots. -/
theorem Turn.decreases (h : Turn g w w') :
    Prod.Lex (· < ·) (· < ·) (w'.roots.length, work g w'.search)
      (w.roots.length, work g w.search) := by
  cases h with
  | pass hs hv => exact .left _ _ (by simp)
  | root hs hv => exact .left _ _ (by simp)
  | move hm => exact .right _ hm.work_lt

theorem wellFounded_next? (g : ModuleGraph) :
    WellFounded fun w' w : Sweep => w.next? g = some w' := by
  have hlex : WellFounded (Prod.Lex (· < ·) (· < ·) : Nat × Nat → Nat × Nat → Prop) :=
    WellFoundedRelation.wf
  exact Subrelation.wf (fun h => (turn_of_next? h).decreases)
    (InvImage.wf (fun w : Sweep => (w.roots.length, work g w.search)) hlex)

/-- The sweeps from one to the end of the turns. -/
def history (g : ModuleGraph) (w : Sweep) : List Sweep :=
  match _ : w.next? g with
  | none => [w]
  | some w' => w :: history g w'
termination_by (w.roots.length, work g w.search)
decreasing_by exact (turn_of_next? ‹w.next? g = some w'›).decreases

theorem history_of_none (h : w.next? g = none) : history g w = [w] := by
  rw [history]
  split
  · rfl
  · next h' => rw [h] at h'; cases h'

theorem history_of_next? (h : w.next? g = some w') : history g w = w :: history g w' := by
  rw [history]
  split
  · next h' => rw [h] at h'; cases h'
  · next h' => rw [h] at h'; cases h'; rfl

theorem exists_history_eq_cons (g : ModuleGraph) (w : Sweep) : ∃ ws, history g w = w :: ws := by
  cases h : w.next? g with
  | none => exact ⟨[], history_of_none h⟩
  | some w' => exact ⟨_, history_of_next? h⟩

theorem history_ne_nil (g : ModuleGraph) (w : Sweep) : history g w ≠ [] := by
  obtain ⟨ws, hws⟩ := exists_history_eq_cons g w
  simp [hws]

/-- The sweep after the last turn. -/
def final (g : ModuleGraph) (w : Sweep) : Sweep := (history g w).getLast (history_ne_nil g w)

theorem final_of_none (h : w.next? g = none) : final g w = w := by
  simp [final, history_of_none h]

theorem final_of_next? (h : w.next? g = some w') : final g w = final g w' := by
  simp only [final, history_of_next? h]
  exact List.getLast_cons (history_ne_nil g w')

theorem getLast?_history (g : ModuleGraph) (w : Sweep) :
    (history g w).getLast? = some (final g w) :=
  List.getLast?_eq_some_getLast (history_ne_nil g w)

/-- What holds at the end, and before each turn if it holds after it, holds throughout. -/
theorem next?_induction {P : Sweep → Prop} (hend : ∀ w, w.next? g = none → P w)
    (hturn : ∀ w w', w.next? g = some w' → P w' → P w) (w : Sweep) : P w := by
  refine (wellFounded_next? g).induction w fun w ih => ?_
  cases h : w.next? g with
  | none => exact hend w h
  | some w' => exact hturn w w' h (ih w' h)

theorem next?_final (g : ModuleGraph) (w : Sweep) : (final g w).next? g = none := by
  induction w using next?_induction (g := g) with
  | hend w hnone => rwa [final_of_none hnone]
  | hturn w w' hnext ih => rwa [final_of_next? hnext]

/-- What each turn keeps holds from one sweep to the end. -/
theorem forall_mem_history {P : Sweep → Prop} (hturn : ∀ w w', P w → Turn g w w' → P w')
    (h : P w) : ∀ w' ∈ history g w, P w' := by
  induction w using next?_induction (g := g) with
  | hend w hnone => simpa [history_of_none hnone] using h
  | hturn w w' hnext ih =>
    rw [history_of_next? hnext]
    exact List.forall_mem_cons.mpr ⟨h, ih (hturn w w' h (turn_of_next? hnext))⟩

/-! ### The bounded search -/

theorem self_mem_history (g : ModuleGraph) (w : Sweep) : w ∈ history g w := by
  obtain ⟨ws, hws⟩ := exists_history_eq_cons g w
  simp [hws]

/-- From a sweep of a history on, its turns are the rest of that history. -/
theorem history_suffix_of_mem (h : w' ∈ history g w) : history g w' <:+ history g w := by
  induction w using next?_induction (g := g) with
  | hend w hnone =>
    obtain rfl : w' = w := by simpa [history_of_none hnone] using h
    exact List.suffix_rfl
  | hturn w w'' hnext ih =>
    rw [history_of_next? hnext, List.mem_cons] at h
    rcases h with rfl | h
    · exact List.suffix_rfl
    · rw [history_of_next? hnext]
      exact (ih h).trans (List.suffix_cons w _)

theorem mem_history_trans {w'' : Sweep} (h : w' ∈ history g w) (h' : w'' ∈ history g w') :
    w'' ∈ history g w :=
  (history_suffix_of_mem h).subset h'

theorem mem_history_of_next? (h : w.next? g = some w') : w' ∈ history g w := by
  rw [history_of_next? h]
  exact List.mem_cons_of_mem w (self_mem_history g w')

/-- Steps of the search are turns, whatever bound is set on them. -/
theorem run_mem_history (n : Nat) (roots : List String) (s : Search) :
    ⟨roots, run g n s⟩ ∈ history g ⟨roots, s⟩ := by
  induction n generalizing s with
  | zero => exact self_mem_history g _
  | succ n ih =>
    rw [run]
    split
    · exact self_mem_history g _
    · next hs =>
      have hnext := next?_of_stack_ne_nil (g := g) (w := ⟨roots, s⟩) (by simpa using hs)
      exact mem_history_trans (mem_history_of_next? hnext) (ih (s.step g))

variable {s : Search} {root : String} {roots : List String}

theorem next?_of_root (hs : s.stack = []) : next? g ⟨root :: roots, s⟩ =
    some ⟨roots, if root ∈ s.visited then s else s.enter g root⟩ := by
  rw [next?, if_pos (by simpa using hs)]

theorem enter_mem_history (hs : s.stack = []) (hv : root ∉ s.visited) :
    ⟨roots, s.enter g root⟩ ∈ history g ⟨root :: roots, s⟩ :=
  mem_history_of_next? (by rw [next?_of_root hs, if_neg hv])

/-- The search from a root is a part of the history and leaves nothing open. -/
theorem searchFrom_mem_history (root : String) (roots : List String) (hs : s.stack = []) :
    ⟨roots, searchFrom g s root⟩ ∈ history g ⟨root :: roots, s⟩ ∧
      (searchFrom g s root).stack = [] := by
  unfold searchFrom
  split
  · next hv =>
    exact ⟨mem_history_of_next? (by rw [next?_of_root hs, if_pos hv]), hs⟩
  · next hv =>
    exact ⟨mem_history_trans (enter_mem_history hs hv) (run_mem_history _ _ _),
      stack_run_eq_nil (work_enter_le hs hv)⟩

theorem foldl_mem_history (before after : List String) (hs : s.stack = []) :
    ⟨after, before.foldl (searchFrom g) s⟩ ∈ history g ⟨before ++ after, s⟩ ∧
      (before.foldl (searchFrom g) s).stack = [] := by
  induction before generalizing s with
  | nil => exact ⟨self_mem_history g _, hs⟩
  | cons root before ih =>
    obtain ⟨hfrom, hs'⟩ := searchFrom_mem_history (g := g) root (before ++ after) hs
    obtain ⟨hrest, hs''⟩ := ih hs'
    exact ⟨mem_history_trans hfrom hrest, hs''⟩

/-- The search with a bound on the steps of each root goes through the turns of the graph. -/
theorem run_mem_history_start {before after : List String}
    (hkeys : g.keys = before ++ root :: after)
    (hv : root ∉ (before.foldl (searchFrom g) Search.start).visited) (n : Nat) :
    ⟨after, run g n ((before.foldl (searchFrom g) Search.start).enter g root)⟩ ∈
      history g (start g) := by
  obtain ⟨hbefore, hs⟩ := foldl_mem_history (g := g) (s := Search.start) before (root :: after) rfl
  rw [← hkeys] at hbefore
  exact mem_history_trans hbefore
    (mem_history_trans (enter_mem_history hs hv) (run_mem_history n after _))

/-- The turns of a graph end where the search with a bound ends. -/
theorem final_start (g : ModuleGraph) : final g (start g) = ⟨[], searchAll g⟩ := by
  obtain ⟨hmem, hs⟩ := foldl_mem_history (g := g) (s := Search.start) g.keys [] rfl
  rw [List.append_nil] at hmem
  have hsame : final g ⟨[], searchAll g⟩ = final g (start g) :=
    (history_suffix_of_mem hmem).getLast (history_ne_nil g _)
  rw [← hsame, final_of_none (next?_eq_none_iff.mpr ⟨hs, rfl⟩)]

/-! ### Imports looked at -/

/-- The import that the next turn looks at: the innermost open module and its next target. -/
def looked? (w : Sweep) : Option Edge :=
  match w.search.stack with
  | ⟨id, t :: _⟩ :: _ => some ⟨id, t⟩
  | _ => none

/-- The imports looked at, turn by turn. -/
def looks (ws : List Sweep) : List Edge := ws.filterMap looked?

theorem looked?_of_nil (hs : w.search.stack = []) : looked? w = none := by
  simp [looked?, hs]

theorem looked?_of_cons {id t : String} {pending : List String} {stack : List Frame}
    (hs : w.search.stack = ⟨id, t :: pending⟩ :: stack) : looked? w = some ⟨id, t⟩ := by
  simp [looked?, hs]

theorem looks_history (h : w.next? g = some w') :
    looks (history g w) = (looked? w).toList ++ looks (history g w') := by
  rw [history_of_next? h, looks, List.filterMap_cons]
  cases looked? w <;> rfl

end Sweep

/-- The imports of modules that have not been entered. -/
def unseenImports (visited : Std.HashSet String) (es : List ModuleEntry) : List Edge :=
  (es.filter (·.id ∉ visited)).flatMap fun e => e.targets.map fun t => ⟨e.id, t⟩

/-- The imports that have not been looked at: those left in open modules, and those of modules that
have not been entered. -/
def importsAhead (g : ModuleGraph) (s : Search) : List Edge :=
  (s.stack.flatMap fun f => f.pending.map fun t => ⟨f.module, t⟩) ++
    unseenImports s.visited g.entries

section Ahead

variable {g : ModuleGraph} {s : Search} {x : String} {visited : Std.HashSet String}

theorem unseenImports_insert_of_not_mem {es : List ModuleEntry} (hx : x ∉ es.map (·.id)) :
    unseenImports (visited.insert x) es = unseenImports visited es := by
  unfold unseenImports
  congr 1
  refine List.filter_congr fun e he => ?_
  have hne : ¬ x = e.id := fun h => hx (h ▸ List.mem_map_of_mem he)
  simp [Std.HashSet.mem_insert, hne]

/-- Entering a module takes its imports from those of modules not entered. -/
theorem unseenImports_insert (hx : x ∉ visited) (g : ModuleGraph) :
    ((g.targets x).map (Edge.mk x) ++ unseenImports (visited.insert x) g.entries).Perm
      (unseenImports visited g.entries) := by
  have hnodup := g.nodup_keys
  unfold ModuleGraph.targets
  generalize g.entries = es at hnodup
  induction es with
  | nil => exact .refl _
  | cons e es ih =>
    rw [List.map_cons, List.nodup_cons] at hnodup
    have hcons (seen : Std.HashSet String) : unseenImports seen (e :: es) =
        (if e.id ∈ seen then [] else e.targets.map (Edge.mk e.id)) ++ unseenImports seen es := by
      by_cases he : e.id ∈ seen <;> simp [unseenImports, he]
    rw [hcons, hcons]
    by_cases he : e.id = x
    · subst he
      rw [unseenImports_insert_of_not_mem hnodup.1, if_pos Std.HashSet.mem_insert_self, if_neg hx,
        List.find?_cons_of_pos (by simp)]
      exact .refl _
    · have hseen : e.id ∈ visited.insert x ↔ e.id ∈ visited := by
        simp [Std.HashSet.mem_insert, Ne.symm he]
      rw [List.find?_cons_of_neg (by simpa using he)]
      simp only [hseen]
      exact (List.perm_append_comm_assoc ..).trans ((ih hnodup.2).append_left _)

theorem importsAhead_of_cons {id t : String} {pending : List String} {stack : List Frame}
    (hs : s.stack = ⟨id, t :: pending⟩ :: stack) :
    importsAhead g s = ⟨id, t⟩ :: importsAhead g { s with stack := ⟨id, pending⟩ :: stack } := by
  simp [importsAhead, hs]

theorem importsAhead_leave {id : String} {stack : List Frame} (hs : s.stack = ⟨id, []⟩ :: stack) :
    importsAhead g (s.leave id stack) = importsAhead g s := by
  simp [importsAhead, Search.leave, hs]

theorem importsAhead_enter (hx : x ∉ s.visited) :
    (importsAhead g (s.enter g x)).Perm (importsAhead g s) := by
  have hnew := (unseenImports_insert hx g).append_left
    (s.stack.flatMap fun f => f.pending.map (Edge.mk f.module))
  have hcons : importsAhead g (s.enter g x) = (g.targets x).map (Edge.mk x) ++
      ((s.stack.flatMap fun f => f.pending.map (Edge.mk f.module)) ++
        unseenImports (s.visited.insert x) g.entries) := by
    simp [importsAhead, Search.enter]
  rw [hcons]
  exact (List.perm_append_comm_assoc ..).trans hnew

theorem importsAhead_start (g : ModuleGraph) : importsAhead g Search.start = g.edges := by
  simp [importsAhead, unseenImports, Search.start, edges]

theorem importsAhead_of_visited (hs : s.stack = []) (hv : ∀ x ∈ g.keys, x ∈ s.visited) :
    importsAhead g s = [] := by
  have hnone : g.entries.filter (·.id ∉ s.visited) = [] := by
    refine List.filter_eq_nil_iff.mpr fun e he => ?_
    simpa using hv e.id (List.mem_map_of_mem he)
  simp only [importsAhead, unseenImports, hs, hnone, List.flatMap_nil, List.append_nil]

end Ahead

namespace Sweep

variable {g : ModuleGraph} {w w' : Sweep}

/-- What a turn looks at was ahead before it and is not after it. -/
theorem Turn.looked_perm (h : Turn g w w') :
    ((looked? w).toList ++ importsAhead g w'.search).Perm (importsAhead g w.search) := by
  cases h with
  | pass hs hv =>
    rw [looked?_of_nil hs]
    exact .refl _
  | root hs hv =>
    rw [looked?_of_nil hs]
    exact importsAhead_enter hv
  | @move roots s s' hm =>
    cases hm with
    | leave hs =>
      have hnone : looked? ⟨roots, s⟩ = none := by simp [looked?, hs]
      rw [hnone, importsAhead_leave hs]
      exact .refl _
    | close hs hi =>
      rw [looked?_of_cons hs, importsAhead_of_cons hs]
      exact .refl _
    | skip hs hp hv =>
      rw [looked?_of_cons hs, importsAhead_of_cons hs]
      exact .refl _
    | @enter id t pending stack hs hp hv =>
      rw [looked?_of_cons hs, importsAhead_of_cons hs]
      exact (importsAhead_enter (s := { s with stack := ⟨id, pending⟩ :: stack }) hv).cons _

theorem looks_perm (g : ModuleGraph) (w : Sweep) :
    (looks (history g w) ++ importsAhead g (final g w).search).Perm (importsAhead g w.search) := by
  induction w using next?_induction (g := g) with
  | hend w hnone =>
    have hs := (next?_eq_none_iff.mp hnone).1
    rw [history_of_none hnone, final_of_none hnone, looks, List.filterMap_cons, looked?_of_nil hs]
    exact .refl _
  | hturn w w' hnext ih =>
    rw [looks_history hnext, final_of_next? hnext, List.append_assoc]
    exact (ih.append_left _).trans (turn_of_next? hnext).looked_perm

/-- All imports are looked at in the turns of a graph, each of them once. -/
theorem looks_start_perm (g : ModuleGraph) : (looks (history g (start g))).Perm g.edges := by
  have hfinal := next?_eq_none_iff.mp (next?_final g (start g))
  have hperm := looks_perm g (start g)
  rw [final_start] at hfinal hperm
  -- At the end nothing is open and every module was entered, so no import is ahead.
  have hnone : importsAhead g (searchAll g) = [] :=
    importsAhead_of_visited hfinal.1 fun x hx => mem_visited_searchAll hx
  rwa [hnone, List.append_nil, start, importsAhead_start] at hperm

/-! ### Modules pushed -/

/-- The module that a turn puts on the stack, if it does. -/
def pushed? (w w' : Sweep) : Option String :=
  if w.search.stack.length < w'.search.stack.length then w'.search.stack.head?.map (·.module)
  else none

/-- The modules put on the stack from each sweep to the next one. -/
def pushes : List Sweep → List String
  | w :: w' :: ws => (pushed? w w').toList ++ pushes (w' :: ws)
  | _ => []

theorem pushes_history (h : w.next? g = some w') :
    pushes (history g w) = (pushed? w w').toList ++ pushes (history g w') := by
  obtain ⟨ws, hws⟩ := exists_history_eq_cons g w'
  rw [history_of_next? h, hws, pushes]

/-- A turn pushes a module that was not visited and visits it, or it does neither. -/
theorem Turn.pushed?_eq (h : Turn g w w') :
    (pushed? w w' = none ∧ w'.search.visited = w.search.visited) ∨
      ∃ x, pushed? w w' = some x ∧ x ∉ w.search.visited ∧
        w'.search.visited = w.search.visited.insert x := by
  cases h with
  | pass hs hv => exact Or.inl ⟨by simp [pushed?], rfl⟩
  | @root root roots s hs hv =>
    exact Or.inr ⟨root, by simp [pushed?, Search.enter], hv, rfl⟩
  | move hm =>
    cases hm with
    | leave hs => exact Or.inl ⟨by simp [pushed?, Search.leave, hs], rfl⟩
    | close hs hi => exact Or.inl ⟨by simp [pushed?, hs], rfl⟩
    | skip hs hp hv => exact Or.inl ⟨by simp [pushed?, hs], rfl⟩
    | @enter id t pending stack hs hp hv =>
      exact Or.inr ⟨t, by simp [pushed?, Search.enter, hs], hv, rfl⟩

/-- What is visited in the end was visited before or is pushed in a turn. -/
theorem mem_visited_final (g : ModuleGraph) (w : Sweep) (x : String) :
    x ∈ (final g w).search.visited ↔ x ∈ w.search.visited ∨ x ∈ pushes (history g w) := by
  induction w using next?_induction (g := g) with
  | hend w hnone => simp [final_of_none hnone, history_of_none hnone, pushes]
  | hturn w w' hnext ih =>
    rw [final_of_next? hnext, ih, pushes_history hnext, List.mem_append]
    obtain ⟨hp, hv⟩ | ⟨y, hp, -, hv⟩ := (turn_of_next? hnext).pushed?_eq
    · simp [hp, hv]
    · simp only [hp, hv, Std.HashSet.mem_insert, beq_iff_eq, Option.toList_some,
        List.mem_singleton, eq_comm (a := y)]
      tauto

/-- No module is pushed twice, and none that was visited before. -/
theorem nodup_pushes (g : ModuleGraph) (w : Sweep) :
    (pushes (history g w)).Nodup ∧ ∀ x ∈ pushes (history g w), x ∉ w.search.visited := by
  induction w using next?_induction (g := g) with
  | hend w hnone => simp [history_of_none hnone, pushes]
  | hturn w w' hnext ih =>
    rw [pushes_history hnext]
    obtain ⟨hp, hv⟩ | ⟨y, hp, hy, hv⟩ := (turn_of_next? hnext).pushed?_eq
    · simpa [hp, ← hv] using ih
    · have hnew : ∀ x ∈ pushes (history g w'), y ≠ x ∧ x ∉ w.search.visited := by
        intro x hx
        simpa [hv, Std.HashSet.mem_insert] using ih.2 x hx
      rw [hp, Option.toList_some, List.singleton_append, List.nodup_cons, List.forall_mem_cons]
      exact ⟨⟨fun hmem => (hnew y hmem).1 rfl, ih.1⟩, hy, fun x hx => (hnew x hx).2⟩

/-! ### What holds at every turn -/

/-- What holds of a sweep: the search is sound and has visited modules and targets only. -/
structure Grounded (g : ModuleGraph) (w : Sweep) : Prop where
  sound : Sound g w.search
  roots_subset : w.roots ⊆ g.keys
  visited_subset : ∀ x ∈ w.search.visited, x ∈ g.keys ∨ ∃ y, g.Imports y x

theorem grounded_start (g : ModuleGraph) : Grounded g (start g) :=
  ⟨sound_start g, List.Subset.refl _, by simp [start, Search.start]⟩

theorem Grounded.turn (h : Grounded g w) (ht : Turn g w w') : Grounded g w' := by
  obtain ⟨hsound, hroots, hvisited⟩ := h
  cases ht with
  | pass hs hv => exact ⟨hsound, (List.cons_subset.mp hroots).2, hvisited⟩
  | root hs hv =>
    obtain ⟨hroot, hroots⟩ := List.cons_subset.mp hroots
    refine ⟨hsound.enter hv (by simp [hs]), hroots, fun x hx => ?_⟩
    rcases Std.HashSet.mem_insert.mp hx with hx | hx
    · exact Or.inl (beq_iff_eq.mp hx ▸ hroot)
    · exact hvisited x hx
  | move hm =>
    refine ⟨hsound.move hm, hroots, ?_⟩
    cases hm with
    | leave hs => exact hvisited
    | close hs hi => exact hvisited
    | skip hs hp hv => exact hvisited
    | enter hs hp hv =>
      intro x hx
      rcases Std.HashSet.mem_insert.mp hx with hx | hx
      · exact Or.inr ⟨_, beq_iff_eq.mp hx ▸ hsound.imports_of_pending hs⟩
      · exact hvisited x hx

theorem grounded_of_mem_history (hw : w ∈ history g (start g)) : Grounded g w :=
  forall_mem_history (fun _ _ h ht => h.turn ht) (grounded_start g) w hw

/-- After a turn the target that it looked at has been visited. -/
theorem Turn.target_mem_visited (h : Sound g w.search) (ht : Turn g w w') {e : Edge}
    (he : looked? w = some e) : e.target ∈ w'.search.visited := by
  cases ht with
  | pass hs hv => simp [looked?, hs] at he
  | root hs hv => simp [looked?, hs] at he
  | move hm =>
    cases hm with
    | leave hs => simp [looked?, hs] at he
    | close hs hi =>
      obtain rfl := Option.some.inj ((looked?_of_cons hs).symm.trans he)
      exact h.mem_visited _ (h.mem_stack_iff.mpr ⟨_, hi⟩)
    | skip hs hp hv =>
      obtain rfl := Option.some.inj ((looked?_of_cons hs).symm.trans he)
      exact hv
    | enter hs hp hv =>
      obtain rfl := Option.some.inj ((looked?_of_cons hs).symm.trans he)
      exact Std.HashSet.mem_insert_self

theorem target_mem_visited_final (h : Grounded g w) :
    ∀ e ∈ looks (history g w), e.target ∈ (final g w).search.visited := by
  induction w using next?_induction (g := g) with
  | hend w hnone =>
    have hs := (next?_eq_none_iff.mp hnone).1
    simp [history_of_none hnone, looks, looked?_of_nil hs]
  | hturn w w' hnext ih =>
    have ht := turn_of_next? hnext
    intro e he
    rw [looks_history hnext, List.mem_append, Option.mem_toList] at he
    rw [final_of_next? hnext]
    rcases he with he | he
    · exact (mem_visited_final g w' _).mpr (Or.inl (ht.target_mem_visited h.sound he))
    · exact ih (h.turn ht) e he

/-- The modules pushed in the turns of a graph are its modules and their targets. -/
theorem mem_pushes_start (g : ModuleGraph) (x : String) :
    x ∈ pushes (history g (start g)) ↔ x ∈ g.keys ∨ ∃ y, g.Imports y x := by
  have hvisited : x ∈ (searchAll g).visited ↔ x ∈ pushes (history g (start g)) := by
    have hnone : x ∉ (start g).search.visited := by simp [start, Search.start]
    have h := mem_visited_final g (start g) x
    rwa [final_start, or_iff_right hnone] at h
  rw [← hvisited]
  constructor
  · have hmem : final g (start g) ∈ history g (start g) := List.getLast_mem _
    have hground := (grounded_of_mem_history hmem).visited_subset x
    rwa [final_start] at hground
  · rintro (hx | ⟨y, hx⟩)
    · exact mem_visited_searchAll hx
    -- A target need not be a module of the graph, but the import of it was looked at.
    · have hlooked : ⟨y, x⟩ ∈ looks (history g (start g)) :=
        (looks_start_perm g).mem_iff.mpr (mem_edges.mpr hx)
      have htarget := target_mem_visited_final (grounded_start g) _ hlooked
      rwa [final_start] at htarget

end Sweep

namespace Search

/-- The path, the positions, the stack and the visited modules say the same. -/
structure InStep (g : ModuleGraph) (s : Search) : Prop where
  /-- The path lists the modules of the stack, the outermost first. -/
  path_eq : s.path.toList = (s.stack.map (·.module)).reverse
  nodup_path : s.path.toList.Nodup
  isChain_path : s.path.toList.IsChain g.Imports
  /-- The positions are those of the modules on the path. -/
  position_iff : ∀ (x : String) (i : Nat), s.position[x]? = some i ↔ s.path.toList[i]? = some x
  /-- So what is cut off the path at a position is not empty. -/
  drop_ne_nil : ∀ (x : String) (i : Nat), s.position[x]? = some i →
    i < s.path.size ∧ s.path.toList.drop i ≠ []
  mem_visited : ∀ x ∈ s.path.toList, x ∈ s.visited
  /-- Of the targets of an open module those behind a cursor are left. -/
  cursor : ∀ f ∈ s.stack, ∃ i ≤ (g.targets f.module).length,
    f.pending = (g.targets f.module).drop i

theorem Sound.inStep {g : ModuleGraph} {s : Search} (h : Sound g s) : InStep g s where
  path_eq := h.path_eq
  nodup_path := by
    rw [h.path_eq]
    exact List.nodup_reverse.mpr h.nodup_stack
  isChain_path := by
    rw [h.path_eq]
    exact List.isChain_reverse.mpr h.isChain_stack
  position_iff := h.position_iff
  drop_ne_nil := by
    intro x i hi
    have hlt := (List.getElem?_eq_some_iff.mp ((h.position_iff x i).mp hi)).1
    exact ⟨by simpa using hlt, by simpa using hlt⟩
  mem_visited := by
    intro x hx
    rw [h.path_eq, List.mem_reverse] at hx
    exact h.mem_visited x hx
  cursor := by
    intro f hf
    obtain ⟨taken, htaken⟩ := h.pending_suffix f hf
    refine ⟨taken.length, ?_, ?_⟩
    · rw [← htaken, List.length_append]
      omega
    · rw [← htaken, List.drop_left]

/-- With nothing open, the path and the positions are empty. -/
theorem InStep.of_stack_eq_nil {g : ModuleGraph} {s : Search} (h : InStep g s)
    (hs : s.stack = []) : s.path = #[] ∧ s.position.isEmpty = true := by
  have hpath : s.path.toList = [] := by simp [h.path_eq, hs]
  refine ⟨by simpa using hpath, Std.HashMap.isEmpty_iff_forall_not_mem.mpr fun x hx => ?_⟩
  have hx := (h.position_iff x _).mp (Std.HashMap.getElem?_eq_some_getElem hx)
  simp [hpath] at hx

end Search

open Sweep in
/-- **The search for cycles turn by turn.** Without a bound on them the turns end, from any sweep of
any graph. Those of the whole search are what the search with a bound goes through at each root, and
they end with its result. At each of them the path, the positions, the stack and the visited modules
are in step, and between two roots nothing is open, on the path or in the positions. Over all turns
the modules and their targets are pushed once each, and the imports are looked at once each. -/
theorem search_turn_by_turn (g : ModuleGraph) :
    WellFounded (fun w' w : Sweep => w.next? g = some w') ∧
    ((∀ before root after, g.keys = before ++ root :: after →
      root ∉ (before.foldl (searchFrom g) Search.start).visited → ∀ n,
      ⟨after, run g n ((before.foldl (searchFrom g) Search.start).enter g root)⟩ ∈
        history g (start g)) ∧
      (history g (start g)).getLast? = some ⟨[], searchAll g⟩) ∧
    (∀ w ∈ history g (start g), InStep g w.search ∧
      (w.search.stack = [] → w.search.path = #[] ∧ w.search.position.isEmpty = true)) ∧
    ((pushes (history g (start g))).Nodup ∧
      ∀ x, x ∈ pushes (history g (start g)) ↔ x ∈ g.keys ∨ ∃ y, g.Imports y x) ∧
    (looks (history g (start g))).Nodup ∧
      ∀ e, e ∈ looks (history g (start g)) ↔ g.Imports e.source e.target := by
  refine ⟨wellFounded_next? g, ⟨?_, ?_⟩, ?_, ⟨(nodup_pushes g _).1, mem_pushes_start g⟩, ?_, ?_⟩
  · exact fun before root after hkeys hv n => run_mem_history_start hkeys hv n
  · rw [getLast?_history, final_start]
  · intro w hw
    have hstep := (grounded_of_mem_history hw).sound.inStep
    exact ⟨hstep, hstep.of_stack_eq_nil⟩
  · exact (looks_start_perm g).nodup_iff.mpr (nodup_edges g)
  · exact fun e => (looks_start_perm g).mem_iff.trans mem_edges

end ScriptAtlas.Cycle
