import Mathlib.Data.Finset.Card
import ScriptAtlas.Proofs.ReportRebuilding
import ScriptAtlas.Proofs.StableOrder

/-! # Which modules are hubs, and in which order

A hub is a module, or a mere target, that enough other modules import. The hubs are in descending
order of the number of their importers, and those with the same number stand as they turn up in the
graph: modules first, then other targets in the order of the imports (`pairwise_hubs`). A higher
threshold leaves hubs out before the sorting; since sorting keeps the order among equals, it might as
well do so behind it (`hubs_eq_filter`), and then it cuts off the end of the list. -/

namespace ScriptAtlas.ModuleGraph

variable {g : ModuleGraph} {x y : String} {threshold : Nat}

/-! ### The number of importers -/

/-- The modules other than `y` that import `y`. -/
def otherImporters (g : ModuleGraph) (y : String) : Finset String :=
  {x ∈ g.keys.toFinset | y ∈ g.targets x ∧ x ≠ y}

theorem mem_otherImporters : x ∈ g.otherImporters y ↔ g.Imports x y ∧ x ≠ y := by
  rw [otherImporters, Finset.mem_filter, List.mem_toFinset]
  constructor
  · rintro ⟨-, h⟩
    exact h
  · rintro ⟨himports, hne⟩
    exact ⟨himports.mem_keys, himports, hne⟩

theorem card_otherImporters (g : ModuleGraph) (y : String) :
    (g.otherImporters y).card = (g.importers y).length := by
  have hset : g.otherImporters y = (g.importers y).toFinset := by
    ext x
    rw [mem_otherImporters, List.mem_toFinset, mem_importers]
  rw [hset, List.toFinset_card_of_nodup (nodup_importers g y)]

/-! ### The order of discovery -/

/-- The modules of the graph, then the other targets in the order of the imports. -/
def discovery (g : ModuleGraph) : List String :=
  g.keys ++ ((g.edges.map (·.target)).filter (· ∉ g.keys)).eraseDups

theorem map_target_edges (g : ModuleGraph) :
    g.edges.map (·.target) = g.entries.flatMap (·.targets) := by
  simp [edges, List.map_flatMap, Function.comp_def]

theorem nodes_eq_discovery (g : ModuleGraph) : g.nodes = g.discovery := by
  rw [nodes, appendAllNew_eq_append, discovery, map_target_edges]

/-! ### Hubs -/

/-- What is listed of a module or a mere target, if it is a hub. -/
def hubOf (g : ModuleGraph) (id : String) : Hub := ⟨id, (g.importers id).length⟩

theorem hubs_eq_descending (g : ModuleGraph) (threshold : Nat) :
    g.hubs threshold =
      descending Hub.importers ((g.nodes.map g.hubOf).filter (max threshold 1 ≤ ·.importers)) :=
  rfl

theorem nodup_map_id_hubs (g : ModuleGraph) (threshold : Nat) :
    ((g.hubs threshold).map (·.id)).Nodup := by
  have hids : ((g.nodes.map g.hubOf).map (·.id)).Nodup := by
    have heq : (g.nodes.map g.hubOf).map (·.id) = g.nodes := by
      rw [List.map_map]
      exact List.map_id _
    rw [heq]
    exact nodup_nodes g
  rw [hubs_eq_descending]
  refine ((descending_perm _ _).map _).nodup_iff.mpr (hids.sublist ?_)
  exact List.filter_sublist.map _

/-- The most imported first, and otherwise in the order of discovery. -/
theorem pairwise_hubs (g : ModuleGraph) (threshold : Nat) :
    (g.hubs threshold).Pairwise fun a b => b.importers < a.importers ∨
      b.importers = a.importers ∧ [a.id, b.id].Sublist g.discovery := by
  rw [hubs_eq_descending]
  refine List.pairwise_iff_forall_sublist.mpr fun {a b} hab => ?_
  have hle : b.importers ≤ a.importers :=
    List.pairwise_iff_forall_sublist.mp (pairwise_descending Hub.importers _) hab
  rcases Nat.lt_or_eq_of_le hle with hlt | heq
  · exact Or.inl hlt
  · -- Hubs with the same number stand as before the sorting.
    have hnodes : [a, b].Sublist (g.nodes.map g.hubOf) :=
      (sublist_of_descending hab heq).trans List.filter_sublist
    refine Or.inr ⟨heq, ?_⟩
    rw [← nodes_eq_discovery]
    simpa [Function.comp_def, hubOf] using hnodes.map Hub.id

/-- The hubs by a threshold among those by a lower one. -/
theorem hubs_eq_filter {lower : Nat} (h : lower ≤ threshold) :
    g.hubs threshold = (g.hubs lower).filter (max threshold 1 ≤ ·.importers) := by
  have hfilter : (g.nodes.map g.hubOf).filter (max threshold 1 ≤ ·.importers) =
      ((g.nodes.map g.hubOf).filter (max lower 1 ≤ ·.importers)).filter
        (max threshold 1 ≤ ·.importers) := by
    rw [List.filter_filter]
    refine List.filter_congr fun a _ => ?_
    rw [Bool.eq_iff_iff, Bool.and_eq_true, decide_eq_true_eq, decide_eq_true_eq]
    omega
  rw [hubs_eq_descending, hfilter, descending_filter, hubs_eq_descending]

/-- **Hubs are classified exactly, and a higher threshold cuts off the end.** Each id is listed at
most once, with the number of the other modules that import it, just if that is at least the
threshold and at least one. The most imported come first, and hubs with the same number stand in the
order of discovery. The hubs by a threshold open the list of those by any lower one. -/
theorem hubs_exact (g : ModuleGraph) (threshold : Nat) :
    ((g.hubs threshold).map (·.id)).Nodup ∧
    (∀ h : Hub, h ∈ g.hubs threshold ↔
      h.importers = (g.otherImporters h.id).card ∧ max threshold 1 ≤ h.importers) ∧
    ((g.hubs threshold).Pairwise fun a b => b.importers < a.importers ∨
      b.importers = a.importers ∧ [a.id, b.id].Sublist g.discovery) ∧
    ∀ lower ≤ threshold, g.hubs threshold <+: g.hubs lower := by
  refine ⟨nodup_map_id_hubs g threshold, fun h => ?_, pairwise_hubs g threshold,
    fun lower hlower => ?_⟩
  · rw [mem_hubs, card_otherImporters]
  · rw [hubs_eq_filter hlower]
    exact filter_le_prefix (pairwise_descending Hub.importers _) _

/-- A module imports itself, and one target is no module of the graph. -/
theorem hubs_exact_self_import :
    let g := ofList [("c", ["b", "x"]), ("b", ["b", "x", "a"]), ("a", ["b"])]
    1 ≤ 2 ∧ g.hubs 2 = [⟨"b", 2⟩, ⟨"x", 2⟩] ∧ g.hubs 1 = [⟨"b", 2⟩, ⟨"x", 2⟩, ⟨"a", 1⟩] ∧
      g.hubs 2 <+: g.hubs 1 := by
  intro g
  have hubs : ∀ n, g.hubs n = descending Hub.importers
      (([⟨"c", 0⟩, ⟨"b", 2⟩, ⟨"a", 1⟩, ⟨"x", 2⟩] : List Hub).filter
        (max n 1 ≤ ·.importers)) := by
    intro n
    have hlisted : g.nodes.map g.hubOf = [⟨"c", 0⟩, ⟨"b", 2⟩, ⟨"a", 1⟩, ⟨"x", 2⟩] := by decide
    rw [hubs_eq_descending, hlisted]
  refine ⟨by decide, ?_, ?_, (hubs_exact g 2).2.2.2 1 (by decide)⟩
  · rw [hubs]
    simp [descending, List.mergeSort, List.MergeSort.Internal.splitInTwo]
  · rw [hubs]
    simp [descending, List.mergeSort, List.MergeSort.Internal.splitInTwo]

end ScriptAtlas.ModuleGraph
