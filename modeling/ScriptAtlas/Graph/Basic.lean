/-! # Module graphs

A module graph lists modules, each with the modules it imports. Modules stand in the order in which
they were first put in, and so do the targets of each. Neither list has a module twice; a target
need not be a module of the graph. -/

namespace ScriptAtlas

/-- A module with what it imports. -/
structure ModuleEntry where
  id : String
  targets : List String
deriving DecidableEq, Repr, Inhabited

/-- Puts `x` at the end of `xs` unless it is there. -/
def appendNew (xs : List String) (x : String) : List String := if x ∈ xs then xs else xs ++ [x]

/-- Puts each of `ys` at the end of `xs` unless it is there. -/
def appendAllNew (xs ys : List String) : List String := ys.foldl appendNew xs

/-- The distinct members of `xs` in the order of their first occurrences. -/
def firstOccurrences (xs : List String) : List String := appendAllNew [] xs

theorem nodup_appendNew {xs : List String} (h : xs.Nodup) (x : String) : (appendNew xs x).Nodup := by
  unfold appendNew
  split
  · exact h
  · next hx =>
    refine List.nodup_append.mpr ⟨h, by simp, ?_⟩
    rintro a ha b hb rfl
    simp only [List.mem_singleton] at hb
    exact hx (hb ▸ ha)

theorem nodup_appendAllNew {xs : List String} (h : xs.Nodup) (ys : List String) :
    (appendAllNew xs ys).Nodup := by
  unfold appendAllNew
  induction ys generalizing xs with
  | nil => exact h
  | cons y ys ih => exact ih (nodup_appendNew h y)

namespace ModuleEntry

/-- Adds targets to the entry of `id`, which is put at the end if there is none. -/
def extend (id : String) (targets : List String) : List ModuleEntry → List ModuleEntry
  | [] => [⟨id, firstOccurrences targets⟩]
  | e :: es =>
    if e.id = id then ⟨e.id, appendAllNew e.targets targets⟩ :: es
    else e :: extend id targets es

theorem map_id_extend (id : String) (targets : List String) (es : List ModuleEntry) :
    (extend id targets es).map (·.id) = appendNew (es.map (·.id)) id := by
  induction es with
  | nil => simp [extend, appendNew]
  | cons e es ih =>
    by_cases h : e.id = id
    · simp [extend, appendNew, h]
    · have h' : ¬ id = e.id := fun he => h he.symm
      by_cases hm : id ∈ es.map (·.id) <;>
        simp_all [extend, appendNew]

theorem nodup_targets_extend {es : List ModuleEntry} (h : ∀ e ∈ es, e.targets.Nodup)
    (id : String) (targets : List String) : ∀ e ∈ extend id targets es, e.targets.Nodup := by
  induction es with
  | nil =>
    simp only [extend, List.mem_singleton, forall_eq]
    exact nodup_appendAllNew List.nodup_nil _
  | cons d es ih =>
    have hd := h d (List.mem_cons_self ..)
    have hes := fun e he => h e (List.mem_cons_of_mem d he)
    intro e he
    unfold extend at he
    split at he
    · rcases List.mem_cons.mp he with rfl | he
      · exact nodup_appendAllNew hd _
      · exact hes e he
    · rcases List.mem_cons.mp he with rfl | he
      · exact hd
      · exact ih hes e he

end ModuleEntry

structure ModuleGraph where
  entries : List ModuleEntry
  nodup_keys : (entries.map (·.id)).Nodup
  nodup_targets : ∀ e ∈ entries, e.targets.Nodup

namespace ModuleGraph

/-- The graph without modules. -/
def empty : ModuleGraph := ⟨[], List.nodup_nil, by simp⟩

instance : Inhabited ModuleGraph := ⟨empty⟩

/-- The modules of the graph. -/
def keys (g : ModuleGraph) : List String := g.entries.map (·.id)

/-- What a module imports; nothing if it is not in the graph. -/
def targets (g : ModuleGraph) (id : String) : List String :=
  match g.entries.find? (·.id = id) with
  | some e => e.targets
  | none => []

/-- Adds a module, if it is new, and targets to it. -/
def add (g : ModuleGraph) (id : String) (targets : List String) : ModuleGraph where
  entries := ModuleEntry.extend id targets g.entries
  nodup_keys := by
    rw [ModuleEntry.map_id_extend]
    exact nodup_appendNew g.nodup_keys id
  nodup_targets := ModuleEntry.nodup_targets_extend g.nodup_targets id targets

/-- The graph of modules with their targets, put in one after the other. -/
def ofList (entries : List (String × List String)) : ModuleGraph :=
  entries.foldl (fun g e => g.add e.1 e.2) empty

/-- An import of one module by another. -/
structure Edge where
  source : String
  target : String
deriving DecidableEq, Repr, Inhabited

/-- All imports, by module. -/
def edges (g : ModuleGraph) : List Edge :=
  g.entries.flatMap fun e => e.targets.map fun t => ⟨e.id, t⟩

/-- The targets that are no modules of the graph, in the order of the imports. -/
def dangling (g : ModuleGraph) : List String :=
  (g.entries.flatMap (·.targets)).filter fun t => !g.keys.contains t

/-- The graph with all targets among its modules. -/
def close (g : ModuleGraph) : ModuleGraph := g.dangling.foldl (fun g t => g.add t []) g

/-- Modules and mere targets, in the order in which they turn up. -/
def nodes (g : ModuleGraph) : List String :=
  appendAllNew g.keys (g.entries.flatMap (·.targets))

end ModuleGraph

end ScriptAtlas
