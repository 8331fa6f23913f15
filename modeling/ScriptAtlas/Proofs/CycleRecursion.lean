import ScriptAtlas.Proofs.CycleSoundness

/-! # The search for cycles by recursion

The search with a stack of open modules finds what a plain recursive search finds (`explore`), which
looks at the targets of a module one after the other and calls itself for those never seen before.
At every point of the search with the stack, the cycles found so far, followed by what the recursive
search finds on the way back along the open modules, are the same (`Move.outcome_eq`). So they are
what the recursive search finds from the start (`cycles_eq_recursiveCycles`). -/

namespace ScriptAtlas.Cycle

open ModuleGraph Search

/-! ### The recursive search -/

/-- What a search finds from some point on, and the modules that are seen by its end. -/
structure Outcome where
  cycles : List (List String)
  visited : Std.HashSet String

/-- The outcome of a search that found some cycles before. -/
def Outcome.behind (before : List (List String)) (o : Outcome) : Outcome :=
  ⟨before ++ o.cycles, o.visited⟩

theorem Outcome.behind_nil (o : Outcome) : o.behind [] = o := rfl

theorem Outcome.behind_behind (cs ds : List (List String)) (o : Outcome) :
    (o.behind ds).behind cs = o.behind (cs ++ ds) := by
  simp [behind]

/-- Looks at targets of the last module of a path, one after the other. A target on the path closes
a cycle, the path from there on and the target again. One that was never seen before is put on the
path, and its own targets are looked at. All others are finished and nothing is done with them. -/
def explore (g : ModuleGraph) (path : List String) (visited : Std.HashSet String) :
    (targets : List String) → { o : Outcome // ∀ x ∈ visited, x ∈ o.visited }
  | [] => ⟨⟨[], visited⟩, fun _ hx => hx⟩
  | t :: targets =>
    if t ∈ path then
      let rest := explore g path visited targets
      ⟨rest.val.behind [path.dropWhile (· ≠ t) ++ [t]], rest.property⟩
    else if ht : t ∈ visited then explore g path visited targets
    else
      let inner := explore g (path ++ [t]) (visited.insert t) (g.targets t)
      have hinner : ∀ x ∈ visited, x ∈ inner.val.visited := fun x hx =>
        inner.property x (Std.HashSet.mem_insert.mpr (Or.inr hx))
      let rest := explore g path inner.val.visited targets
      ⟨rest.val.behind inner.val.cycles, fun x hx => rest.property x (hinner x hx)⟩
termination_by targets => unseen visited g.entries + targets.length
decreasing_by
  · simp
  · simp
  · have := unseen_insert ht g
    simp only [List.length_cons]
    omega
  · exact Nat.add_lt_add_of_le_of_lt (unseen_le_of_subset hinner g.entries) (by simp)

/-- The cycles that the recursive search finds. The modules of the graph are its first targets, with
nothing on the path. -/
def recursiveCycles (g : ModuleGraph) : List (List String) := (explore g [] ∅ g.keys).val.cycles

section Explore

variable {g : ModuleGraph} {path : List String} {visited : Std.HashSet String} {t : String}

theorem explore_nil : (explore g path visited []).val = ⟨[], visited⟩ := by
  rw [explore]

theorem explore_of_mem_path (h : t ∈ path) (targets : List String) :
    (explore g path visited (t :: targets)).val =
      (explore g path visited targets).val.behind [path.dropWhile (· ≠ t) ++ [t]] := by
  rw [explore, if_pos h]

theorem explore_of_mem_visited (hp : t ∉ path) (hv : t ∈ visited) (targets : List String) :
    (explore g path visited (t :: targets)).val = (explore g path visited targets).val := by
  rw [explore, if_neg hp, dif_pos hv]

theorem explore_of_new (hp : t ∉ path) (hv : t ∉ visited) (targets : List String) :
    (explore g path visited (t :: targets)).val =
      (explore g path (explore g (path ++ [t]) (visited.insert t) (g.targets t)).val.visited
        targets).val.behind
        (explore g (path ++ [t]) (visited.insert t) (g.targets t)).val.cycles := by
  rw [explore, if_neg hp, dif_neg hv]

end Explore

namespace Search

variable {g : ModuleGraph} {s s' : Search} {visited : Std.HashSet String} {id t : String}
  {pending : List String} {stack : List Frame}

/-! ### The way back -/

/-- What the recursive search finds on the way back along the open modules. -/
def unwind (g : ModuleGraph) (visited : Std.HashSet String) : List Frame → Outcome
  | [] => ⟨[], visited⟩
  | f :: stack =>
    let inner := (explore g ((f :: stack).map (·.module)).reverse visited f.pending).val
    (unwind g inner.visited stack).behind inner.cycles

theorem unwind_cons (id : String) (pending : List String) (stack : List Frame) :
    unwind g visited (⟨id, pending⟩ :: stack) =
      (unwind g (explore g (id :: stack.map (·.module)).reverse visited pending).val.visited
        stack).behind
        (explore g (id :: stack.map (·.module)).reverse visited pending).val.cycles :=
  rfl

theorem unwind_leave : unwind g visited (⟨id, []⟩ :: stack) = unwind g visited stack := by
  rw [unwind_cons, explore_nil, Outcome.behind_nil]

theorem unwind_close (h : t ∈ (id :: stack.map (·.module)).reverse) :
    unwind g visited (⟨id, t :: pending⟩ :: stack) =
      (unwind g visited (⟨id, pending⟩ :: stack)).behind
        [(id :: stack.map (·.module)).reverse.dropWhile (· ≠ t) ++ [t]] := by
  rw [unwind_cons, unwind_cons, explore_of_mem_path h, Outcome.behind_behind]
  rfl

theorem unwind_skip (hp : t ∉ (id :: stack.map (·.module)).reverse) (hv : t ∈ visited) :
    unwind g visited (⟨id, t :: pending⟩ :: stack) = unwind g visited (⟨id, pending⟩ :: stack) := by
  rw [unwind_cons, unwind_cons, explore_of_mem_visited hp hv]

theorem unwind_enter (hp : t ∉ (id :: stack.map (·.module)).reverse) (hv : t ∉ visited) :
    unwind g visited (⟨id, t :: pending⟩ :: stack) =
      unwind g (visited.insert t) (⟨t, g.targets t⟩ :: ⟨id, pending⟩ :: stack) := by
  have hpath : (t :: ((⟨id, pending⟩ : Frame) :: stack).map (·.module)).reverse =
      (id :: stack.map (·.module)).reverse ++ [t] := List.reverse_cons
  rw [unwind_cons, explore_of_new hp hv, unwind_cons t, hpath, unwind_cons, Outcome.behind_behind]
  rfl

/-! ### Moves -/

/-- What has been found, and what the recursive search finds from here on. -/
def outcome (g : ModuleGraph) (s : Search) : Outcome :=
  (unwind g s.visited s.stack).behind s.cycles.toList

theorem drop_eq_dropWhile {path : List String} (hpath : path.Nodup) {i : Nat}
    (h : path[i]? = some t) : path.drop i = path.dropWhile (· ≠ t) := by
  induction path generalizing i with
  | nil => simp at h
  | cons x path ih =>
    rw [List.nodup_cons] at hpath
    cases i with
    | zero =>
      obtain rfl : x = t := by simpa using h
      simp
    | succ i =>
      have h : path[i]? = some t := by simpa using h
      have hx : x ≠ t := fun hx => hpath.1 (hx ▸ List.mem_of_getElem? h)
      rw [List.drop_succ_cons, ih hpath.2 h, List.dropWhile_cons_of_pos (by simpa using hx)]

theorem Sound.path_of_cons (h : Sound g s) (hs : s.stack = ⟨id, pending⟩ :: stack) :
    s.path.toList = (id :: stack.map (·.module)).reverse := by
  rw [h.path_eq, hs, List.map_cons]

theorem Sound.not_mem_path (h : Sound g s) (hp : s.position[t]? = none) :
    t ∉ s.path.toList := by
  rw [h.path_eq, List.mem_reverse, h.mem_stack_iff]
  rintro ⟨i, hi⟩
  rw [hp] at hi
  cases hi

/-- A move changes nothing of what is found in the end. -/
theorem Move.outcome_eq (h : Sound g s) (hm : Move g s s') : outcome g s' = outcome g s := by
  cases hm with
  | leave hs =>
    simp only [outcome, Search.leave, hs]
    rw [unwind_leave]
  | @close id t pending stack i hs hi =>
    have hpath := h.path_of_cons hs
    have hit : s.path.toList[i]? = some t := (h.position_iff t i).mp hi
    have hnodup : s.path.toList.Nodup := by
      rw [h.path_eq]
      exact List.nodup_reverse.mpr h.nodup_stack
    have hmem := List.mem_of_getElem? hit
    rw [hpath] at hmem
    simp only [outcome, hs, Array.toList_push]
    rw [unwind_close hmem, Outcome.behind_behind, drop_eq_dropWhile hnodup hit, hpath]
  | skip hs hp hv =>
    have hnew := h.not_mem_path hp
    rw [h.path_of_cons hs] at hnew
    simp only [outcome, hs]
    rw [unwind_skip hnew hv]
  | enter hs hp hv =>
    have hnew := h.not_mem_path hp
    rw [h.path_of_cons hs] at hnew
    simp only [outcome, Search.enter, hs]
    rw [unwind_enter hnew hv]

/-! ### The whole search -/

theorem outcome_run (h : Sound g s) (n : Nat) :
    Sound g (run g n s) ∧ outcome g (run g n s) = outcome g s :=
  run_induction (P := fun s' => Sound g s' ∧ outcome g s' = outcome g s)
    (fun _ _ hs hm => ⟨hs.1.move hm, (hm.outcome_eq hs.1).trans hs.2⟩) n ⟨h, rfl⟩

theorem outcome_of_stack_eq_nil (hs : s.stack = []) :
    outcome g s = ⟨s.cycles.toList, s.visited⟩ := by
  simp [outcome, hs, unwind, Outcome.behind]

/-- Entering a root with an empty path. -/
theorem outcome_enter_root (hs : s.stack = []) (root : String) :
    outcome g (s.enter g root) =
      (explore g [root] (s.visited.insert root) (g.targets root)).val.behind s.cycles.toList := by
  simp [outcome, enter, hs, unwind, Outcome.behind]

/-- Searching from some modules finds what the recursive search finds with them as targets. -/
theorem outcome_foldl_searchFrom (roots : List String) (h : Sound g s) (hs : s.stack = []) :
    outcome g (roots.foldl (searchFrom g) s) =
      (explore g [] s.visited roots).val.behind s.cycles.toList := by
  induction roots generalizing s with
  | nil =>
    rw [List.foldl_nil, explore_nil, outcome_of_stack_eq_nil hs]
    simp [Outcome.behind]
  | cons root roots ih =>
    rw [List.foldl_cons]
    by_cases hv : root ∈ s.visited
    · have hsame : searchFrom g s root = s := if_pos hv
      rw [hsame, ih h hs, explore_of_mem_visited List.not_mem_nil hv]
    · have hrun : searchFrom g s root = run g (bound g) (s.enter g root) := if_neg hv
      have hsound : Sound g (s.enter g root) := h.enter hv (by simp [hs])
      obtain ⟨hsound', houtcome⟩ := outcome_run hsound (bound g)
      have hstack : (run g (bound g) (s.enter g root)).stack = [] :=
        stack_run_eq_nil (work_enter_le hs hv)
      rw [outcome_enter_root hs, outcome_of_stack_eq_nil hstack] at houtcome
      have hcycles := congrArg Outcome.cycles houtcome
      have hvisited := congrArg Outcome.visited houtcome
      simp only [Outcome.behind] at hcycles hvisited
      rw [hrun, ih hsound' hstack, hcycles, hvisited, explore_of_new List.not_mem_nil hv,
        Outcome.behind_behind]
      rfl

end Search

/-- **The search with a stack and the recursive search find the same cycles**, in the same order. -/
theorem cycles_eq_recursiveCycles (g : ModuleGraph) : cycles g = recursiveCycles g := by
  have hstack : (searchAll g).stack = [] :=
    (searchAll_induction (P := fun _ => True) (fun _ _ _ _ => trivial) (fun _ _ _ _ _ => trivial)
      trivial).2
  have houtcome : outcome g (searchAll g) = (explore g [] ∅ g.keys).val.behind [] :=
    outcome_foldl_searchFrom g.keys (sound_start g) rfl
  rw [outcome_of_stack_eq_nil hstack, Outcome.behind_nil] at houtcome
  exact congrArg Outcome.cycles houtcome

end ScriptAtlas.Cycle
