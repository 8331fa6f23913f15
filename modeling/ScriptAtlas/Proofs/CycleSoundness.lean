import Mathlib.Data.List.Nodup
import ScriptAtlas.Proofs.CycleSearch

/-! # Every cycle found is one

Along the search the path is the modules of the stack, from the outermost in; it has no module
twice, each module imports the next, and every module on it is known by its position. So what is cut
off the path when a target is met on it is a way round (`isCycle_of_mem_cycles`). -/

namespace ScriptAtlas.Cycle

open ModuleGraph

namespace Search

variable {g : ModuleGraph} {s s' : Search}

/-- What holds of a search under way. -/
structure Sound (g : ModuleGraph) (s : Search) : Prop where
  path_eq : s.path.toList = (s.stack.map (·.module)).reverse
  nodup_stack : (s.stack.map (·.module)).Nodup
  isChain_stack : (s.stack.map (·.module)).IsChain fun x y => g.Imports y x
  position_iff : ∀ (x : String) (i : Nat), s.position[x]? = some i ↔ s.path.toList[i]? = some x
  pending_suffix : ∀ f ∈ s.stack, f.pending <:+ g.targets f.module
  mem_visited : ∀ x ∈ s.stack.map (·.module), x ∈ s.visited
  isCycle : ∀ c ∈ s.cycles.toList, g.IsCycle c

/-! ### Positions -/

theorem getElem?_concat_of_ne {xs : List String} {a x : String} (h : x ≠ a) (i : Nat) :
    (xs ++ [a])[i]? = some x ↔ xs[i]? = some x := by
  rcases Nat.lt_or_ge i xs.length with hi | hi
  · rw [List.getElem?_append_left hi]
  · rw [List.getElem?_append_right hi, List.getElem?_eq_none hi, List.getElem?_singleton]
    split <;> simp [Ne.symm h]

theorem getElem?_concat_self {xs : List String} {a : String} (h : a ∉ xs) (i : Nat) :
    (xs ++ [a])[i]? = some a ↔ xs.length = i := by
  rcases Nat.lt_or_ge i xs.length with hi | hi
  · rw [List.getElem?_append_left hi]
    exact ⟨fun he => absurd (List.mem_of_getElem? he) h, fun he => absurd he (by omega)⟩
  · rw [List.getElem?_append_right hi, List.getElem?_singleton]
    by_cases he : xs.length = i
    · simp [he]
    · simp [he, show i - xs.length ≠ 0 by omega]

theorem Sound.mem_stack_iff (h : Sound g s) {x : String} :
    x ∈ s.stack.map (·.module) ↔ ∃ i, s.position[x]? = some i := by
  rw [← List.mem_reverse, ← h.path_eq, List.mem_iff_getElem?]
  exact exists_congr fun i => (h.position_iff x i).symm

/-! ### Moves -/

theorem sound_start (g : ModuleGraph) : Sound g start := by
  constructor <;> simp [start]

/-- Taking a target from the innermost module. -/
theorem Sound.take (h : Sound g s) {id t : String} {pending : List String} {stack : List Frame}
    (hs : s.stack = ⟨id, t :: pending⟩ :: stack) :
    Sound g { s with stack := ⟨id, pending⟩ :: stack } := by
  obtain ⟨hpath, hnodup, hchain, hpos, hpend, hvis, hcyc⟩ := h
  simp only [hs, List.map_cons] at hpath hnodup hchain hvis
  refine ⟨hpath, hnodup, hchain, hpos, ?_, hvis, hcyc⟩
  intro f hf
  rcases List.mem_cons.mp hf with rfl | hf
  · have hp := hpend ⟨id, t :: pending⟩ (by simp [hs])
    exact (List.suffix_cons t pending).trans hp
  · exact hpend f (by simp [hs, hf])

theorem Sound.imports_of_pending (h : Sound g s) {id t : String} {pending : List String}
    {stack : List Frame} (hs : s.stack = ⟨id, t :: pending⟩ :: stack) : g.Imports id t :=
  (h.pending_suffix ⟨id, t :: pending⟩ (by simp [hs])).subset (List.mem_cons_self ..)

theorem Sound.enter (h : Sound g s) {t : String} (ht : t ∉ s.visited)
    (himp : ∀ f ∈ s.stack.head?, g.Imports f.module t) : Sound g (s.enter g t) := by
  have hnew : t ∉ s.stack.map (·.module) := fun hm => ht (h.mem_visited t hm)
  have hpath : t ∉ s.path.toList := by rwa [h.path_eq, List.mem_reverse]
  refine ⟨?_, ?_, ?_, ?_, ?_, ?_, h.isCycle⟩
  · simp [Search.enter, h.path_eq]
  · exact List.nodup_cons.mpr ⟨hnew, h.nodup_stack⟩
  · refine List.isChain_cons.mpr ⟨?_, h.isChain_stack⟩
    intro y hy
    rw [List.head?_map, Option.mem_def, Option.map_eq_some_iff] at hy
    obtain ⟨f, hf, rfl⟩ := hy
    exact himp f hf
  · intro x i
    simp only [Search.enter, Array.toList_push, Std.HashMap.getElem?_insert, beq_iff_eq]
    by_cases hx : t = x
    · subst hx
      rw [if_pos rfl, getElem?_concat_self hpath, Option.some.injEq, Array.length_toList]
    · rw [if_neg hx, getElem?_concat_of_ne (Ne.symm hx)]
      exact h.position_iff x i
  · intro f hf
    rcases List.mem_cons.mp hf with rfl | hf
    · exact List.suffix_rfl
    · exact h.pending_suffix f hf
  · intro x hx
    rcases List.mem_cons.mp hx with rfl | hx
    · exact Std.HashSet.mem_insert_self
    · exact Std.HashSet.mem_insert.mpr (Or.inr (h.mem_visited x hx))

theorem Sound.leave (h : Sound g s) {id : String} {pending : List String} {stack : List Frame}
    (hs : s.stack = ⟨id, pending⟩ :: stack) : Sound g (s.leave id stack) := by
  obtain ⟨hpath, hnodup, hchain, hpos, hpend, hvis, hcyc⟩ := h
  simp only [hs, List.map_cons, List.reverse_cons] at hpath hnodup hchain hvis
  rw [List.nodup_cons] at hnodup
  refine ⟨by simp [Search.leave, hpath], hnodup.2, hchain.tail, ?_, ?_, ?_, hcyc⟩
  · intro x i
    simp only [Search.leave, Array.toList_pop, hpath, List.dropLast_concat,
      Std.HashMap.getElem?_erase, beq_iff_eq]
    by_cases hx : id = x
    · subst hx
      rw [if_pos rfl]
      constructor
      · intro he
        cases he
      · intro he
        exact absurd (List.mem_reverse.mp (List.mem_of_getElem? he)) hnodup.1
    · rw [if_neg hx, hpos, hpath, getElem?_concat_of_ne (Ne.symm hx)]
  · exact fun f hf => hpend f (by simp [hs, show f ∈ stack from hf])
  · exact fun x hx => hvis x (List.mem_cons_of_mem _ hx)

theorem mem_keys_of_isChain {l : List String} {t : String} (h : (l ++ [t]).IsChain g.Imports) :
    ∀ x ∈ l, x ∈ g.keys := by
  induction l with
  | nil => simp
  | cons y l ih =>
    rw [List.cons_append, List.isChain_cons] at h
    intro x hx
    rcases List.mem_cons.mp hx with rfl | hx
    · obtain ⟨z, hz⟩ : ∃ z, (l ++ [t]).head? = some z := by cases l <;> simp
      exact (h.1 z hz).mem_keys
    · exact ih h.2 x hx

/-- What is cut off the path at a target of the innermost module is a way round. -/
theorem Sound.isCycle_close (h : Sound g s) {id t : String} {pending : List String}
    {stack : List Frame} {i : Nat} (hs : s.stack = ⟨id, t :: pending⟩ :: stack)
    (hi : s.position[t]? = some i) : g.IsCycle (s.path.toList.drop i ++ [t]) := by
  have hit : s.path.toList[i]? = some t := (h.position_iff t i).mp hi
  have hlt : i < s.path.toList.length := (List.getElem?_eq_some_iff.mp hit).1
  have hhead : (s.path.toList.drop i).head? = some t := by rw [List.head?_drop, hit]
  have himp := h.imports_of_pending hs
  have hlast : s.path.toList.getLast? = some id := by simp [h.path_eq, hs]
  have hpath : s.path.toList.IsChain g.Imports := by
    rw [h.path_eq]
    exact List.isChain_reverse.mpr h.isChain_stack
  -- The path ends in the innermost module, which imports the target.
  have hround : (s.path.toList ++ [t]).IsChain g.Imports := by
    refine List.isChain_append.mpr ⟨hpath, .singleton _, ?_⟩
    simpa [hlast] using himp
  have hchain : (s.path.toList.drop i ++ [t]).IsChain g.Imports := by
    simpa [List.drop_append_of_le_length hlt.le] using hround.drop i
  have hkeys := mem_keys_of_isChain hchain
  refine ⟨?_, ?_, ?_, ?_, hchain⟩
  · simp only [List.length_append, List.length_drop, List.length_singleton]; omega
  · simp [List.head?_append, hhead]
  · rw [List.dropLast_concat, h.path_eq]
    exact (List.nodup_reverse.mpr h.nodup_stack).sublist (List.drop_sublist i _)
  · intro x hx
    rcases List.mem_append.mp hx with hx | hx
    · exact hkeys x hx
    · rw [List.mem_singleton.mp hx]
      exact hkeys t (List.mem_of_mem_head? hhead)

theorem Sound.move (h : Sound g s) (hm : Move g s s') : Sound g s' := by
  cases hm with
  | leave hs => exact h.leave hs
  | close hs hi =>
    obtain ⟨hpath, hnodup, hchain, hpos, hpend, hvis, hcyc⟩ := h.take hs
    refine ⟨hpath, hnodup, hchain, hpos, hpend, hvis, ?_⟩
    intro c hc
    rw [Array.toList_push, List.mem_append, List.mem_singleton] at hc
    rcases hc with hc | rfl
    · exact hcyc c hc
    · exact h.isCycle_close hs hi
  | skip hs hp hv => exact h.take hs
  | enter hs hp hv =>
    refine (h.take hs).enter hv ?_
    simpa using h.imports_of_pending hs

theorem sound_searchAll (g : ModuleGraph) : Sound g (searchAll g) :=
  (searchAll_induction (fun _ _ h hm => h.move hm)
    (fun s root h hs hv => h.enter hv (by simp [hs])) (sound_start g)).1

end Search

/-- **Every cycle found is one**: a way along imports from a module back to it, which meets no other
module twice. -/
theorem isCycle_of_mem_cycles {g : ModuleGraph} {c : List String} (h : c ∈ cycles g) :
    g.IsCycle c :=
  (Search.sound_searchAll g).isCycle c h

/-- With `c` importing both modules before it, the longer way round is found second. -/
theorem isCycle_of_mem_cycles_nested :
    ["a", "b", "c", "a"] ∈ cycles (.ofList [("a", ["b"]), ("b", ["c"]), ("c", ["b", "a"])]) ∧
    (ModuleGraph.ofList [("a", ["b"]), ("b", ["c"]), ("c", ["b", "a"])]).IsCycle
      ["a", "b", "c", "a"] := by
  have h : cycles (.ofList [("a", ["b"]), ("b", ["c"]), ("c", ["b", "a"])]) =
      [["b", "c", "b"], ["a", "b", "c", "a"]] := by
    simp [cycles, Search.searchAll, Search.searchFrom, Search.start, Search.enter, Search.bound,
      Search.run, Search.step, Search.look, Search.leave, ofList, add, empty, ModuleEntry.extend,
      firstOccurrences, appendAllNew, appendNew, keys, edges, targets, Std.HashMap.getElem_insert]
  have hmem : ["a", "b", "c", "a"] ∈
      cycles (.ofList [("a", ["b"]), ("b", ["c"]), ("c", ["b", "a"])]) := by simp [h]
  exact ⟨hmem, isCycle_of_mem_cycles hmem⟩

end ScriptAtlas.Cycle
