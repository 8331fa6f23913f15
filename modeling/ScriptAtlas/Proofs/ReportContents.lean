import ScriptAtlas.Graph.Importer
import ScriptAtlas.Proofs.InsertionOrder

/-! # What a report lists

Imports, hubs and orphans are lists in the order of the graph. What they list depends on the import
relation alone: `mem_edges`, `mem_importers`, `mem_hubs` and `mem_orphans` say it in its terms. -/

namespace ScriptAtlas.ModuleGraph

variable {g : ModuleGraph} {x y : String}

/-! ### Imports and nodes -/

theorem imports_iff_exists_entry :
    g.Imports x y ↔ ∃ e ∈ g.entries, e.id = x ∧ y ∈ e.targets := by
  refine ⟨exists_entry_of_imports, ?_⟩
  rintro ⟨e, he, rfl, hy⟩
  rwa [Imports, targets_of_mem he]

theorem mem_edges {e : Edge} : e ∈ g.edges ↔ g.Imports e.source e.target := by
  rw [imports_iff_exists_entry]
  simp only [edges, List.mem_flatMap, List.mem_map]
  constructor
  · rintro ⟨d, hd, t, ht, rfl⟩
    exact ⟨d, hd, rfl, ht⟩
  · rintro ⟨d, hd, hsource, ht⟩
    exact ⟨d, hd, e.target, ht, by rw [hsource]⟩

/-- The nodes are the modules of the closed graph. -/
theorem nodes_eq_keys_close (g : ModuleGraph) : g.nodes = g.close.keys := by
  rw [nodes, appendAllNew_eq_append, flatMap_targets_entries, keys_close]

theorem mem_nodes : x ∈ g.nodes ↔ x ∈ g.keys ∨ ∃ y, g.Imports y x := by
  rw [nodes_eq_keys_close, mem_keys_close]

/-! ### Importers and hubs -/

theorem mem_importers : x ∈ g.importers y ↔ g.Imports x y ∧ x ≠ y := by
  rw [imports_iff_exists_entry]
  simp only [importers, List.mem_map, List.mem_filter, Bool.and_eq_true, decide_eq_true_eq,
    List.contains_iff_mem]
  constructor
  · rintro ⟨e, ⟨he, hne, hy⟩, rfl⟩
    exact ⟨⟨e, he, rfl, hy⟩, hne⟩
  · rintro ⟨⟨e, he, rfl, hy⟩, hne⟩
    exact ⟨e, ⟨he, hne, hy⟩, rfl⟩

theorem nodup_importers (g : ModuleGraph) (y : String) : (g.importers y).Nodup :=
  g.nodup_keys.sublist (List.filter_sublist.map _)

/-- A hub is a node by its importers. -/
theorem mem_hubs {h : Hub} {threshold : Nat} :
    h ∈ g.hubs threshold ↔
      h.importers = (g.importers h.id).length ∧ max threshold 1 ≤ h.importers := by
  simp only [hubs, List.mem_mergeSort, List.mem_filter, List.mem_map, decide_eq_true_eq]
  constructor
  · rintro ⟨⟨id, -, rfl⟩, hle⟩
    exact ⟨rfl, hle⟩
  · rintro ⟨hcount, hle⟩
    have hpos : 0 < (g.importers h.id).length := by omega
    obtain ⟨x, hx⟩ := List.exists_mem_of_length_pos hpos
    refine ⟨⟨h.id, mem_nodes.mpr (Or.inr ⟨x, (mem_importers.mp hx).1⟩), ?_⟩, hle⟩
    rw [← hcount]

/-! ### Orphans -/

theorem importers_eq_nil_iff : g.importers y = [] ↔ ∀ x, g.Imports x y → x = y := by
  simp only [List.eq_nil_iff_forall_not_mem, mem_importers, not_and, ne_eq, not_not]

theorem mem_orphans {stems : List String} :
    x ∈ g.orphans stems ↔ (∃ y, g.Imports x y ∧ y ≠ x) ∧ (∀ y, g.Imports y x → y = x) ∧
      EntryPoint.accepts stems x = false := by
  rw [← importers_eq_nil_iff]
  simp only [imports_iff_exists_entry, orphans, List.mem_map, List.mem_filter, Bool.and_eq_true,
    List.any_eq_true, decide_eq_true_eq, List.isEmpty_iff, Bool.not_eq_true']
  constructor
  · rintro ⟨e, ⟨he, ⟨⟨y, hy, hne⟩, hnone⟩, hstems⟩, rfl⟩
    exact ⟨⟨y, ⟨e, he, rfl, hy⟩, hne⟩, hnone, hstems⟩
  · rintro ⟨⟨y, ⟨e, he, rfl, hy⟩, hne⟩, hnone, hstems⟩
    exact ⟨e, ⟨he, ⟨⟨y, hy, hne⟩, hnone⟩, hstems⟩, rfl⟩

end ScriptAtlas.ModuleGraph
