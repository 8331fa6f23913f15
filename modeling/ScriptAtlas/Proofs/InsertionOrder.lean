import ScriptAtlas.Proofs.ImportRelation

/-! # The order of modules and targets in a graph

A module graph is built by adding modules with targets, one after the other. Its modules are then
the distinct ones added, in the order of their first occurrences (`keys_ofList`), and the targets of
a module are the distinct ones added under its name (`targets_ofList`). Closing a graph puts the
targets that are no modules behind the modules and leaves all targets as they are (`keys_close`,
`targets_close`). -/

namespace ScriptAtlas

/-! ### First occurrences -/

theorem appendAllNew_eq_append (xs ys : List String) :
    appendAllNew xs ys = xs ++ (ys.filter (· ∉ xs)).eraseDups := by
  unfold appendAllNew
  induction ys generalizing xs with
  | nil => simp
  | cons y ys ih =>
    rw [List.foldl_cons, ih, appendNew]
    by_cases hy : y ∈ xs
    · simp [hy]
    · have hfilter : (ys.filter (· ∉ xs)).filter (fun z => !z == y) =
          ys.filter (· ∉ xs ++ [y]) := by
        rw [List.filter_filter]
        refine List.filter_congr fun z _ => ?_
        by_cases hz : z = y <;> simp [hz]
      rw [if_neg hy, List.filter_cons_of_pos (by simpa using hy), List.eraseDups_cons, hfilter,
        List.append_assoc, List.singleton_append]

theorem firstOccurrences_eq_eraseDups (xs : List String) : firstOccurrences xs = xs.eraseDups := by
  simp [firstOccurrences, appendAllNew_eq_append]

namespace ModuleGraph

variable {g : ModuleGraph}

/-! ### Adding -/

theorem find?_extend (id k : String) (targets : List String) (es : List ModuleEntry) :
    ((ModuleEntry.extend id targets es).find? (·.id = k)) =
      if k = id then
        some ⟨id, appendAllNew ((es.find? (·.id = id)).elim [] (·.targets)) targets⟩
      else es.find? (·.id = k) := by
  induction es with
  | nil => by_cases hk : k = id <;> simp [ModuleEntry.extend, firstOccurrences, hk, Ne.symm]
  | cons e es ih =>
    unfold ModuleEntry.extend
    -- Either the first entry is the one extended, or it is kept and the others are extended.
    by_cases he : e.id = id
    · by_cases hk : k = id
      · simp [he, hk]
      · simp [he, hk, Ne.symm hk]
    · rw [if_neg he]
      by_cases hek : e.id = k
      · have hk : k ≠ id := fun hk => he (hek.trans hk)
        simp [hek, hk]
      · rw [List.find?_cons_of_neg (by simpa using hek), ih,
          List.find?_cons_of_neg (by simpa using he), List.find?_cons_of_neg (by simpa using hek)]

theorem targets_eq_elim (g : ModuleGraph) (k : String) :
    g.targets k = (g.entries.find? (·.id = k)).elim [] (·.targets) := by
  unfold targets
  cases g.entries.find? (·.id = k) <;> rfl

theorem keys_add (g : ModuleGraph) (id : String) (targets : List String) :
    (g.add id targets).keys = appendNew g.keys id :=
  ModuleEntry.map_id_extend id targets g.entries

theorem targets_add (g : ModuleGraph) (id k : String) (targets : List String) :
    (g.add id targets).targets k =
      if k = id then appendAllNew (g.targets id) targets else g.targets k := by
  simp only [targets_eq_elim, add, find?_extend]
  split <;> rfl

theorem keys_foldl_add (entries : List (String × List String)) (g : ModuleGraph) :
    (entries.foldl (fun g e => g.add e.1 e.2) g).keys =
      appendAllNew g.keys (entries.map (·.1)) := by
  induction entries generalizing g with
  | nil => rfl
  | cons e entries ih =>
    rw [List.foldl_cons, ih, keys_add]
    rfl

theorem targets_foldl_add (entries : List (String × List String)) (g : ModuleGraph) (k : String) :
    (entries.foldl (fun g e => g.add e.1 e.2) g).targets k =
      appendAllNew (g.targets k) ((entries.filter (·.1 = k)).flatMap (·.2)) := by
  induction entries generalizing g with
  | nil => rfl
  | cons e entries ih =>
    rw [List.foldl_cons, ih, targets_add]
    by_cases hk : k = e.1
    · subst hk
      simp [appendAllNew, List.foldl_append]
    · simp [hk, Ne.symm hk]

theorem keys_ofList (entries : List (String × List String)) :
    (ofList entries).keys = (entries.map (·.1)).eraseDups := by
  rw [ofList, keys_foldl_add]
  exact firstOccurrences_eq_eraseDups _

theorem targets_ofList (entries : List (String × List String)) (k : String) :
    (ofList entries).targets k = ((entries.filter (·.1 = k)).flatMap (·.2)).eraseDups := by
  rw [ofList, targets_foldl_add]
  exact firstOccurrences_eq_eraseDups _

/-! ### Closing -/

theorem flatMap_targets_entries (g : ModuleGraph) :
    g.entries.flatMap (·.targets) = g.keys.flatMap g.targets := by
  rw [keys, List.flatMap_map]
  exact List.flatMap_congr fun e he => (targets_of_mem he).symm

theorem dangling_eq_filter (g : ModuleGraph) :
    g.dangling = (g.keys.flatMap g.targets).filter (· ∉ g.keys) := by
  rw [dangling, flatMap_targets_entries]
  exact List.filter_congr fun t _ => by simp

theorem close_eq_foldl (g : ModuleGraph) :
    g.close = (g.dangling.map fun t => (t, [])).foldl (fun g e => g.add e.1 e.2) g := by
  rw [close, List.foldl_map]

theorem keys_close (g : ModuleGraph) :
    g.close.keys = g.keys ++ ((g.keys.flatMap g.targets).filter (· ∉ g.keys)).eraseDups := by
  rw [close_eq_foldl, keys_foldl_add, appendAllNew_eq_append, List.map_map, dangling_eq_filter]
  simp [Function.comp_def, List.filter_filter]

theorem targets_close (g : ModuleGraph) (k : String) : g.close.targets k = g.targets k := by
  rw [close_eq_foldl, targets_foldl_add, List.flatMap_eq_nil_iff.mpr]
  · rfl
  · intro e he
    obtain ⟨t, -, rfl⟩ := List.mem_map.mp (List.mem_of_mem_filter he)
    rfl

theorem mem_keys_close {k : String} :
    k ∈ g.close.keys ↔ k ∈ g.keys ∨ ∃ x, g.Imports x k := by
  have htargets : k ∈ g.keys.flatMap g.targets ↔ ∃ x, g.Imports x k := by
    rw [List.mem_flatMap]
    exact ⟨fun ⟨x, _, hx⟩ => ⟨x, hx⟩, fun ⟨x, hx⟩ => ⟨x, hx.mem_keys, hx⟩⟩
  rw [keys_close, List.mem_append, List.mem_eraseDups, List.mem_filter, htargets]
  by_cases hk : k ∈ g.keys <;> simp [hk]

theorem targets_close_subset_keys (g : ModuleGraph) (k : String) :
    g.close.targets k ⊆ g.close.keys := by
  intro t ht
  rw [targets_close] at ht
  exact mem_keys_close.mpr (Or.inr ⟨k, ht⟩)

end ModuleGraph

end ScriptAtlas
