import Mathlib.Algebra.BigOperators.Group.List.Basic
import Mathlib.Algebra.GroupWithZero.Nat
import Mathlib.Data.List.Nodup
import Mathlib.Data.List.Perm.Basic
import ScriptAtlas.Graph.Report
import ScriptAtlas.Proofs.CycleSoundness
import ScriptAtlas.Proofs.ReportContents

/-! # Graphs from their reports

A report lists the modules and the imports of a graph. Put in again one after the other they give
the graph back (`rebuild_report`), since a graph is its modules in order with the targets of each
(`ext_keys_targets`). So what else a report says can be told from these two lists: an importer of a
module is an import of it by another one (`length_importers`), and every import by another module is
counted once among the hubs (`sum_importers_hubs`). -/

namespace ScriptAtlas

/-! ### Lists without repetition -/

theorem eraseDups_of_nodup {xs : List String} (h : xs.Nodup) : xs.eraseDups = xs := by
  induction xs with
  | nil => rfl
  | cons x xs ih =>
    rw [List.nodup_cons] at h
    have hfilter : xs.filter (fun y => !y == x) = xs := by
      refine List.filter_eq_self.mpr fun y hy => ?_
      have hne : y ≠ x := fun hyx => h.1 (hyx ▸ hy)
      simpa using hne
    rw [List.eraseDups_cons, hfilter, ih h.2]

theorem countP_key_cons {α : Type} (key : α → String) (p : α → Bool) {k : String}
    {ks : List String} (hk : k ∉ ks) (xs : List α) :
    (xs.countP fun x => key x ∈ k :: ks && p x) =
      (xs.countP fun x => key x = k && p x) + xs.countP fun x => key x ∈ ks && p x := by
  induction xs with
  | nil => rfl
  | cons x xs ih =>
    rw [List.countP_cons, List.countP_cons, List.countP_cons, ih]
    by_cases hx : key x = k
    · simp [hx, hk]
      omega
    · simp [hx]
      omega

/-- Members counted for each of some keys are the members that have one of these. -/
theorem sum_countP_key {α : Type} (key : α → String) (p : α → Bool) {ks : List String}
    (hks : ks.Nodup) (xs : List α) :
    (ks.map fun k => xs.countP fun x => key x = k && p x).sum =
      xs.countP fun x => key x ∈ ks && p x := by
  induction ks with
  | nil => simp
  | cons k ks ih =>
    rw [List.nodup_cons] at hks
    rw [List.map_cons, List.sum_cons, ih hks.2, countP_key_cons key p hks.1]

namespace ModuleGraph

variable {g : ModuleGraph} {x y : String}

/-! ### A graph by its modules and targets -/

theorem entries_eq_map_keys (g : ModuleGraph) :
    g.entries = g.keys.map fun k => ⟨k, g.targets k⟩ := by
  have hself : ∀ e ∈ g.entries, (⟨e.id, g.targets e.id⟩ : ModuleEntry) = e := by
    intro e he
    rw [targets_of_mem he]
  rw [keys, List.map_map]
  exact ((List.map_congr_left hself).trans (List.map_id _)).symm

theorem ext_keys_targets {g h : ModuleGraph} (hkeys : g.keys = h.keys)
    (htargets : ∀ k, g.targets k = h.targets k) : g = h := by
  have hentries : g.entries = h.entries := by
    rw [entries_eq_map_keys g, entries_eq_map_keys h, hkeys]
    exact List.map_congr_left fun k _ => by rw [htargets k]
  cases g
  cases h
  cases hentries
  rfl

/-! ### Imports in order -/

theorem nodup_edges (g : ModuleGraph) : g.edges.Nodup := by
  have hids : g.entries.Pairwise fun d e => d.id ≠ e.id := List.pairwise_map.mp g.nodup_keys
  refine List.nodup_flatMap.mpr ⟨fun e he => ?_, hids.imp fun {d e} hne => ?_⟩
  · exact (g.nodup_targets e he).map fun s t hst => congrArg Edge.target hst
  · intro a ha hb
    obtain ⟨s, -, rfl⟩ := List.mem_map.mp ha
    obtain ⟨t, -, ht⟩ := List.mem_map.mp hb
    exact hne (congrArg Edge.source ht).symm

theorem map_target_filter_source {es : List ModuleEntry} (h : (es.map (·.id)).Nodup) (k : String) :
    (((es.flatMap fun e => e.targets.map fun t => (⟨e.id, t⟩ : Edge)).filter
      (·.source = k)).map (·.target)) = (es.find? (·.id = k)).elim [] (·.targets) := by
  induction es with
  | nil => rfl
  | cons e es ih =>
    rw [List.map_cons, List.nodup_cons] at h
    rw [List.flatMap_cons, List.filter_append, List.map_append, ih h.2]
    by_cases hk : e.id = k
    · -- No later entry has this id, so all that is found are the targets of the first.
      have hnone : es.find? (·.id = k) = none := by
        refine List.find?_eq_none.mpr fun d hd hdk => h.1 ?_
        have hid : d.id = k := by simpa using hdk
        rw [hk, ← hid]
        exact List.mem_map_of_mem hd
      have hall : (e.targets.map fun t => (⟨e.id, t⟩ : Edge)).filter (·.source = k) =
          e.targets.map fun t => ⟨e.id, t⟩ := by simp [hk]
      rw [hnone, hall, List.find?_cons_of_pos (by simpa using hk)]
      simp [Function.comp_def]
    · rw [List.find?_cons_of_neg (by simpa using hk)]
      simp [hk]

theorem map_target_filter_edges (g : ModuleGraph) (k : String) :
    (g.edges.filter (·.source = k)).map (·.target) = g.targets k := by
  rw [targets_eq_elim]
  exact map_target_filter_source g.nodup_keys k

theorem map_source_edges_subset (g : ModuleGraph) : g.edges.map (·.source) ⊆ g.keys := by
  intro k hk
  obtain ⟨e, he, rfl⟩ := List.mem_map.mp hk
  exact (mem_edges.mp he).mem_keys

/-! ### Importers by imports -/

/-- An importer of a module is an import of it by another one. -/
theorem length_importers (g : ModuleGraph) (y : String) :
    (g.importers y).length = g.edges.countP fun e => e.target = y && e.source ≠ y := by
  have hnodup : ((g.edges.filter fun e => e.target = y && e.source ≠ y).map (·.source)).Nodup := by
    refine List.Nodup.map_on ?_ ((nodup_edges g).filter _)
    rintro ⟨s, t⟩ hd ⟨s', t'⟩ he rfl
    obtain ⟨rfl, -⟩ : t = y ∧ s ≠ y := by simpa using (List.mem_filter.mp hd).2
    obtain ⟨rfl, -⟩ : t' = t ∧ s ≠ t := by simpa using (List.mem_filter.mp he).2
    rfl
  have hmem : ∀ x, x ∈ g.importers y ↔
      x ∈ (g.edges.filter fun e => e.target = y && e.source ≠ y).map (·.source) := by
    intro x
    rw [mem_importers]
    simp only [List.mem_map, List.mem_filter, mem_edges, Bool.and_eq_true, decide_eq_true_eq]
    constructor
    · rintro ⟨himports, hne⟩
      exact ⟨⟨x, y⟩, ⟨himports, rfl, hne⟩, rfl⟩
    · rintro ⟨e, ⟨himports, rfl, hne⟩, rfl⟩
      exact ⟨himports, hne⟩
  have hperm := (List.perm_ext_iff_of_nodup (nodup_importers g y) hnodup).mpr hmem
  rw [hperm.length_eq, List.length_map, ← List.countP_eq_length_filter]

theorem nodup_nodes (g : ModuleGraph) : g.nodes.Nodup := by
  rw [nodes_eq_keys_close]
  exact g.close.nodup_keys

/-- Modules that nobody imports add nothing. -/
theorem sum_map_filter_importers (ids : List String) (g : ModuleGraph) :
    (((ids.map fun id => (⟨id, (g.importers id).length⟩ : Hub)).filter
      fun h => max 0 1 ≤ h.importers).map (·.importers)).sum =
      (ids.map fun id => (g.importers id).length).sum := by
  induction ids with
  | nil => rfl
  | cons id ids ih =>
    rw [List.map_cons, List.map_cons, List.sum_cons, ← ih]
    by_cases hpos : max 0 1 ≤ (g.importers id).length
    · rw [List.filter_cons_of_pos (by simpa using hpos), List.map_cons, List.sum_cons]
    · rw [List.filter_cons_of_neg (by simpa using hpos)]
      omega

/-- The hubs with any importer count every import of another module once. -/
theorem sum_importers_hubs (g : ModuleGraph) :
    ((g.hubs 0).map (·.importers)).sum = g.edges.countP fun e => e.source ≠ e.target := by
  have hnode : ∀ e ∈ g.edges, e.target ∈ g.nodes := fun e he =>
    mem_nodes.mpr (Or.inr ⟨e.source, mem_edges.mp he⟩)
  calc ((g.hubs 0).map (·.importers)).sum
      = (g.nodes.map fun id => (g.importers id).length).sum := by
        rw [← sum_map_filter_importers]
        exact ((List.mergeSort_perm _ _).map _).sum_eq
    _ = (g.nodes.map fun id =>
          g.edges.countP fun e => e.target = id && e.source ≠ e.target).sum := by
        refine congrArg List.sum (List.map_congr_left fun id _ => ?_)
        rw [length_importers]
        refine List.countP_congr fun e _ => ?_
        by_cases ht : e.target = id <;> simp [ht]
    _ = g.edges.countP fun e => e.target ∈ g.nodes && e.source ≠ e.target :=
        sum_countP_key Edge.target (fun e => e.source ≠ e.target) (nodup_nodes g) g.edges
    _ = g.edges.countP fun e => e.source ≠ e.target := by
        refine List.countP_congr fun e he => ?_
        simp [hnode e he]

end ModuleGraph

/-! ### Rebuilding -/

/-- The graph that the nodes and edges of a report give, put in one after the other. -/
def GraphReport.rebuild (r : GraphReport) : ModuleGraph :=
  r.edges.foldl (fun g e => g.add e.source [e.target])
    (r.nodes.foldl (fun g id => g.add id []) .empty)

namespace ModuleGraph

theorem rebuild_eq_foldl (r : GraphReport) :
    r.rebuild = (r.edges.map fun e => (e.source, [e.target])).foldl (fun g e => g.add e.1 e.2)
      ((r.nodes.map fun id => (id, [])).foldl (fun g e => g.add e.1 e.2) empty) := by
  unfold GraphReport.rebuild
  rw [List.foldl_map, List.foldl_map]

theorem keys_rebuild (r : GraphReport) :
    r.rebuild.keys = appendAllNew (firstOccurrences r.nodes) (r.edges.map (·.source)) := by
  rw [rebuild_eq_foldl, keys_foldl_add, keys_foldl_add, List.map_map, List.map_map]
  simp [Function.comp_def, firstOccurrences, keys, empty]

theorem targets_rebuild (r : GraphReport) (k : String) :
    r.rebuild.targets k =
      firstOccurrences ((r.edges.filter (·.source = k)).map (·.target)) := by
  have hnodes : ((r.nodes.map fun id => (id, ([] : List String))).filter (·.1 = k)).flatMap (·.2) =
      [] := by
    refine List.flatMap_eq_nil_iff.mpr fun e he => ?_
    obtain ⟨id, -, rfl⟩ := List.mem_map.mp (List.mem_of_mem_filter he)
    rfl
  have hedges : ((r.edges.map fun e => (e.source, [e.target])).filter (·.1 = k)).flatMap (·.2) =
      (r.edges.filter (·.source = k)).map (·.target) := by
    rw [List.filter_map, List.flatMap_map]
    exact List.map_eq_flatMap.symm
  rw [rebuild_eq_foldl, targets_foldl_add, targets_foldl_add, hnodes, hedges]
  rfl

variable (g : ModuleGraph) (threshold : Nat) (stems : List String)

theorem keys_rebuild_report : (g.report threshold stems).rebuild.keys = g.keys := by
  -- The modules come first, so the sources of imports bring no new ones.
  have hsources : (g.edges.map (·.source)).filter (· ∉ g.keys) = [] := by
    refine List.filter_eq_nil_iff.mpr fun k hk => ?_
    simpa using map_source_edges_subset g hk
  have hkeys : firstOccurrences g.keys = g.keys := by
    rw [firstOccurrences_eq_eraseDups]
    exact eraseDups_of_nodup g.nodup_keys
  rw [keys_rebuild]
  show appendAllNew (firstOccurrences g.keys) (g.edges.map (·.source)) = g.keys
  rw [hkeys, appendAllNew_eq_append, hsources, List.eraseDups_nil, List.append_nil]

theorem targets_rebuild_report (k : String) :
    (g.report threshold stems).rebuild.targets k = g.targets k := by
  rw [targets_rebuild]
  show firstOccurrences ((g.edges.filter (·.source = k)).map (·.target)) = g.targets k
  rw [map_target_filter_edges, firstOccurrences_eq_eraseDups,
    eraseDups_of_nodup (targets_nodup g k)]

/-- The modules and imports of a report make up the graph it is about. -/
theorem rebuild_report : (g.report threshold stems).rebuild = g :=
  ext_keys_targets (keys_rebuild_report g threshold stems)
    (targets_rebuild_report g threshold stems)

/-- **The nodes and edges of a report determine the rest.** They make up the graph again, modules
and targets in order. No edge is listed twice, every step of a cycle is an edge, the importers of a
hub are its edges from other modules, and all hubs together have every edge between two modules. -/
theorem report_told_by_edges (g : ModuleGraph) (threshold : Nat) (stems : List String) :
    let r : GraphReport := g.report threshold stems
    r.rebuild = g ∧ r.edges.Nodup ∧
      (∀ c ∈ r.cycles, c.IsChain fun x y => ⟨x, y⟩ ∈ r.edges) ∧
      (∀ h ∈ r.hubs,
        h.importers = r.edges.countP fun e => e.target = h.id && e.source ≠ h.id) ∧
      ((g.hubs 0).map (·.importers)).sum = r.edges.countP fun e => e.source ≠ e.target := by
  intro r
  refine ⟨rebuild_report g threshold stems, nodup_edges g, fun c hc => ?_, fun h hh => ?_,
    sum_importers_hubs g⟩
  · have hcycle : g.IsCycle c := (Cycle.Search.sound_searchAll g).isCycle c hc
    exact hcycle.isChain.imp fun x y hxy => mem_edges.mpr hxy
  · have hcount : h.importers = (g.importers h.id).length := (mem_hubs.mp hh).1
    rw [hcount, length_importers]
    rfl

/-- A module that imports itself, another one that imports it in turn, and one that is no module of
the graph. -/
theorem report_told_by_edges_self_import :
    let g := ofList [("a", ["b", "a", "x"]), ("b", ["a"])]
    let r := g.report 1 []
    ["a", "b", "a"] ∈ r.cycles ∧ ⟨"x", 1⟩ ∈ r.hubs ∧ r.rebuild = g ∧
      (["a", "b", "a"].IsChain fun x y => ⟨x, y⟩ ∈ r.edges) ∧
      (r.edges.countP fun e => e.target = "x" && e.source ≠ "x") = 1 ∧
      ((g.hubs 0).map (·.importers)).sum = 3 := by
  intro g r
  have hcycles : r.cycles = [["a", "b", "a"], ["a", "a"]] := by
    simp [r, g, report, Cycle.cycles, Cycle.Search.searchAll, Cycle.Search.searchFrom,
      Cycle.Search.start, Cycle.Search.enter, Cycle.Search.bound, Cycle.Search.run,
      Cycle.Search.step, Cycle.Search.look, Cycle.Search.leave, ofList, add, empty,
      ModuleEntry.extend, firstOccurrences, appendAllNew, appendNew, keys, edges, targets,
      Std.HashMap.getElem_insert]
  have hcycle : ["a", "b", "a"] ∈ r.cycles := by simp [hcycles]
  have hhub : ⟨"x", 1⟩ ∈ r.hubs := mem_hubs.mpr (by decide)
  obtain ⟨hrebuild, -, hsteps, hhubs, hsum⟩ := report_told_by_edges g 1 []
  have hthree : (r.edges.countP fun e => e.source ≠ e.target) = 3 := by decide
  exact ⟨hcycle, hhub, hrebuild, hsteps _ hcycle, (hhubs _ hhub).symm, hsum.trans hthree⟩

end ModuleGraph

end ScriptAtlas
