import Mathlib.Data.List.Perm.Subperm
import ScriptAtlas.Proofs.CycleCompleteness
import ScriptAtlas.Proofs.DependencyList
import ScriptAtlas.Proofs.GraphConstruction
import ScriptAtlas.Proofs.ReportContents

/-! # Graphs that hold other graphs

A graph with all modules and imports of another one (`IsSubgraph`) has all its findings: hubs have
no fewer importers, and if there were cycles, cycles are found (`IsSubgraph.report_within`). Which
cycles these are may change, so this rests on the search being sound and complete.

Files that import more, looked up in the same way, have such a graph (`isSubgraph_moduleGraph`). So
counting the imports that are evaluated only when the program gets there hides nothing
(`graphReport_within_of_dynamic`), and the order and repetition of files change no more than the
order of the report (`graphReport_agrees_of_sameFiles`). -/

namespace ScriptAtlas

/-! ### Reports -/

namespace GraphReport

/-- Does the second report find whatever the first one does? -/
structure Within (r r' : GraphReport) : Prop where
  nodes : ∀ k ∈ r.nodes, k ∈ r'.nodes
  edges : ∀ e ∈ r.edges, e ∈ r'.edges
  hubs : ∀ h ∈ r.hubs, ∃ h' ∈ r'.hubs, h'.id = h.id ∧ h.importers ≤ h'.importers
  cycles : r.cycles ≠ [] → r'.cycles ≠ []

/-- Do the reports list the same, in whatever order? Of the cycles, only whether there are any. -/
structure Agrees (r r' : GraphReport) : Prop where
  nodes : ∀ k, k ∈ r.nodes ↔ k ∈ r'.nodes
  edges : ∀ e, e ∈ r.edges ↔ e ∈ r'.edges
  hubs : ∀ h, h ∈ r.hubs ↔ h ∈ r'.hubs
  orphans : ∀ k, k ∈ r.orphans ↔ k ∈ r'.orphans
  cycles : r.cycles = [] ↔ r'.cycles = []

end GraphReport

/-! ### Subgraphs -/

namespace ModuleGraph

variable {g g' : ModuleGraph}

/-- Is every module and every import of the first graph one of the second? -/
structure IsSubgraph (g g' : ModuleGraph) : Prop where
  keys : ∀ k ∈ g.keys, k ∈ g'.keys
  imports : ∀ x y, g.Imports x y → g'.Imports x y

namespace IsSubgraph

theorem length_importers_le (h : g.IsSubgraph g') (y : String) :
    (g.importers y).length ≤ (g'.importers y).length := by
  have hsub : g.importers y ⊆ g'.importers y := by
    intro x hx
    obtain ⟨himports, hne⟩ := mem_importers.mp hx
    exact mem_importers.mpr ⟨h.imports x y himports, hne⟩
  exact ((nodup_importers g y).subperm hsub).length_le

theorem acyclic (h : g.IsSubgraph g') (hg : g'.Acyclic) : g.Acyclic := fun x hx =>
  hg x (Relation.TransGen.mono h.imports x x hx)

/-- The cycles of the smaller graph need not be found in the larger one, but then others are. -/
theorem cycles_ne_nil (h : g.IsSubgraph g') (hcycles : Cycle.cycles g ≠ []) :
    Cycle.cycles g' ≠ [] := by
  obtain ⟨c, hc⟩ := List.exists_mem_of_ne_nil _ hcycles
  have hcyclic : ¬ g.Acyclic := ((Cycle.Search.sound_searchAll g).isCycle c hc).not_acyclic
  intro hnil
  exact hcyclic (h.acyclic (Cycle.acyclic_of_cycles_eq_nil hnil))

theorem report_within (h : g.IsSubgraph g') (threshold : Nat) (stems : List String) :
    (g.report threshold stems).Within (g'.report threshold stems) where
  nodes := h.keys
  edges e he := mem_edges.mpr (h.imports _ _ (mem_edges.mp he))
  hubs hub hhub := by
    obtain ⟨hcount, hle⟩ := mem_hubs.mp hhub
    have hmore := h.length_importers_le hub.id
    rw [← hcount] at hmore
    exact ⟨⟨hub.id, (g'.importers hub.id).length⟩, mem_hubs.mpr ⟨rfl, hle.trans hmore⟩, rfl, hmore⟩
  cycles := h.cycles_ne_nil

theorem report_agrees (h : g.IsSubgraph g') (h' : g'.IsSubgraph g) (threshold : Nat)
    (stems : List String) : (g.report threshold stems).Agrees (g'.report threshold stems) := by
  have himports : ∀ x y, g.Imports x y ↔ g'.Imports x y := fun x y =>
    ⟨h.imports x y, h'.imports x y⟩
  have hcount : ∀ y, (g.importers y).length = (g'.importers y).length := fun y =>
    (h.length_importers_le y).antisymm (h'.length_importers_le y)
  refine ⟨fun k => ⟨h.keys k, h'.keys k⟩, fun e => ?_, fun hub => ?_, fun k => ?_, ?_⟩
  · simp only [report, mem_edges, himports]
  · simp only [report, mem_hubs, hcount]
  · simp only [report, mem_orphans, himports]
  · exact not_iff_not.mp ⟨h.cycles_ne_nil, h'.cycles_ne_nil⟩

end IsSubgraph

end ModuleGraph

/-! ### Files -/

variable {tree : FileTree} {files files' : List SourceFile} {mode : Addressing}
  {o o' : GraphOptions} {r : Resolver} {target : String}

/-- What a file mentions depends on its id and its content, not on the name it is shown under. -/
theorem inFile?_congr {f f' : SourceFile} (hid : f'.id = f.id) (hcontent : f'.content = f.content) :
    Import.inFile? f' = Import.inFile? f := by
  unfold Import.inFile? SourceFile.tree?
  rw [hid, hcontent]

theorem SourceFile.ImportsModule.mono {f f' : SourceFile} (h : f.ImportsModule r o target)
    (hid : f'.id = f.id) (hcontent : f'.content = f.content)
    (hcounts : ∀ m, o.counts m = true → o'.counts m = true) : f'.ImportsModule r o' target := by
  obtain ⟨records, hread, m, hm, hcounted, hresolve⟩ := h
  refine ⟨records, ?_, m, hm, hcounts m hcounted, ?_⟩
  · rw [inFile?_congr hid hcontent]
    exact hread
  · rw [hid]
    exact hresolve

/-- Among more files, counting more mentions, and with the same answers to what a name stands for,
there are more modules and imports. -/
theorem isSubgraph_moduleGraph
    (hresolver : resolverFor tree files mode o.extensions =
      resolverFor tree files' mode o'.extensions)
    (hfiles : ∀ f ∈ files, ∃ f' ∈ files', f'.id = f.id ∧ f'.content = f.content)
    (hcounts : ∀ m, o.counts m = true → o'.counts m = true) :
    (moduleGraph tree files mode o).IsSubgraph (moduleGraph tree files' mode o') := by
  have himports : ∀ f ∈ files, ∀ t,
      f.ImportsModule (resolverFor tree files mode o.extensions) o t →
      ∃ f' ∈ files', f'.id = f.id ∧
        f'.ImportsModule (resolverFor tree files' mode o'.extensions) o' t := by
    intro f hf t ht
    obtain ⟨f', hf', hid, hcontent⟩ := hfiles f hf
    rw [hresolver] at ht
    exact ⟨f', hf', hid, ht.mono hid hcontent hcounts⟩
  refine ⟨fun k hk => ?_, fun x y hxy => ?_⟩
  · rcases mem_keys_moduleGraph.mp hk with hread | ⟨f, hf, ht⟩
    · obtain ⟨f, hf, hsome, rfl⟩ := mem_readableIds.mp hread
      obtain ⟨f', hf', hid, hcontent⟩ := hfiles f hf
      rw [← inFile?_congr hid hcontent] at hsome
      exact mem_keys_moduleGraph.mpr (Or.inl (mem_readableIds.mpr ⟨f', hf', hsome, by rw [hid]⟩))
    · obtain ⟨f', hf', -, ht'⟩ := himports f hf k ht
      exact mem_keys_moduleGraph.mpr (Or.inr ⟨f', hf', ht'⟩)
  · obtain ⟨f, hf, rfl, ht⟩ := imports_moduleGraph.mp hxy
    obtain ⟨f', hf', hid, ht'⟩ := himports f hf y ht
    exact imports_moduleGraph.mpr ⟨f', hf', by rw [hid], ht'⟩

theorem graphReport_eq_ok (hfiles : files ≠ []) :
    graphReport tree files mode o =
      .ok ((moduleGraph tree files mode o).report o.hubThreshold o.entryPoints) := by
  unfold graphReport
  rw [Function.requireFiles_eq_ok hfiles]
  rfl

/-! ### Imports on the way -/

theorem counts_of_dynamic {m : Import.Record}
    (h : ({ o with includeDynamicImports := false } : GraphOptions).counts m = true) :
    ({ o with includeDynamicImports := true } : GraphOptions).counts m = true := by
  unfold GraphOptions.counts at h ⊢
  cases hform : m.form <;> simp_all

/-- **Counting more imports hides no finding.** With the imports that are evaluated only when the
program gets there, a report has all modules and imports that it has without them, every hub with at
least as many importers, and a cycle if there was one. -/
theorem graphReport_within_of_dynamic (tree : FileTree) (hfiles : files ≠ []) (mode : Addressing)
    (o : GraphOptions) :
    ∃ r r' : GraphReport,
      graphReport tree files mode { o with includeDynamicImports := false } = .ok r ∧
      graphReport tree files mode { o with includeDynamicImports := true } = .ok r' ∧
      r.Within r' := by
  refine ⟨_, _, graphReport_eq_ok hfiles, graphReport_eq_ok hfiles, ?_⟩
  have hsub : (moduleGraph tree files mode { o with includeDynamicImports := false }).IsSubgraph
      (moduleGraph tree files mode { o with includeDynamicImports := true }) :=
    isSubgraph_moduleGraph rfl (fun f hf => ⟨f, hf, rfl, rfl⟩) fun _ => counts_of_dynamic
  exact hsub.report_within o.hubThreshold o.entryPoints

/-- A file that loads one module at once and another one later. -/
theorem graphReport_within_of_dynamic_later :
    let files : List SourceFile :=
      [.of "a.ts" "import './b'; import('./c');", .of "b.ts" "", .of "c.ts" ""]
    let g dynamic := moduleGraph .empty files .virtual { includeDynamicImports := dynamic }
    files ≠ [] ∧ (g false).edges = [⟨"a.ts", "b.ts"⟩] ∧
      (g true).edges = [⟨"a.ts", "b.ts"⟩, ⟨"a.ts", "c.ts"⟩] ∧
      ∃ r r' : GraphReport,
        graphReport .empty files .virtual { includeDynamicImports := false } = .ok r ∧
        graphReport .empty files .virtual { includeDynamicImports := true } = .ok r' ∧
        r.Within r' := by
  intro files g
  have hfiles : files ≠ [] := by simp [files]
  exact ⟨hfiles, by decide +kernel, by decide +kernel,
    graphReport_within_of_dynamic .empty hfiles .virtual {}⟩

/-! ### The order of the files -/

/-- The same ids with the same contents, in any order and any number of times. -/
def SameFiles (files files' : List SourceFile) : Prop :=
  ∀ p : String × String,
    p ∈ files.map (fun f => (f.id, f.content)) ↔ p ∈ files'.map (fun f => (f.id, f.content))

namespace SameFiles

theorem symm (h : SameFiles files files') : SameFiles files' files := fun p => (h p).symm

theorem exists_file (h : SameFiles files files') {f : SourceFile} (hf : f ∈ files) :
    ∃ f' ∈ files', f'.id = f.id ∧ f'.content = f.content := by
  obtain ⟨f', hf', hpair⟩ := List.mem_map.mp ((h (f.id, f.content)).mp (List.mem_map_of_mem hf))
  exact ⟨f', hf', congrArg Prod.fst hpair, congrArg Prod.snd hpair⟩

theorem ne_nil (h : SameFiles files files') (hfiles : files ≠ []) : files' ≠ [] := by
  obtain ⟨f, hf⟩ := List.exists_mem_of_ne_nil _ hfiles
  obtain ⟨f', hf', -⟩ := h.exists_file hf
  exact List.ne_nil_of_mem hf'

theorem contains_normalize (h : SameFiles files files') (path : String)
    (hpath : path ∈ files.map fun f => Path.normalize f.id) :
    path ∈ files'.map fun f => Path.normalize f.id := by
  obtain ⟨f, hf, rfl⟩ := List.mem_map.mp hpath
  obtain ⟨f', hf', hid, -⟩ := h.exists_file hf
  exact List.mem_map.mpr ⟨f', hf', by rw [hid]⟩

/-- The same files answer alike to what a name stands for. -/
theorem resolverFor_eq (h : SameFiles files files') (tree : FileTree) (mode : Addressing)
    (extensions : List String) :
    resolverFor tree files mode extensions = resolverFor tree files' mode extensions := by
  cases mode with
  | filesystem => rfl
  | virtual =>
    have hcontains : (files.map fun f => Path.normalize f.id).contains =
        (files'.map fun f => Path.normalize f.id).contains := by
      funext path
      rw [Bool.eq_iff_iff, List.contains_iff_mem, List.contains_iff_mem]
      exact ⟨h.contains_normalize path, h.symm.contains_normalize path⟩
    exact congrArg (Resolver.of extensions) hcontains

theorem isSubgraph (h : SameFiles files files') (tree : FileTree) (mode : Addressing)
    (o : GraphOptions) :
    (moduleGraph tree files mode o).IsSubgraph (moduleGraph tree files' mode o) :=
  isSubgraph_moduleGraph (h.resolverFor_eq tree mode o.extensions) (fun _ hf => h.exists_file hf)
    fun _ hcounts => hcounts

end SameFiles

/-- **The module graph depends on the files as a set.** The same files in another order, or some of
them repeated, give the same modules and imports, and reports with the same hubs and orphans that
agree on whether there are cycles. -/
theorem graphReport_agrees_of_sameFiles (tree : FileTree) (mode : Addressing) (o : GraphOptions)
    (hfiles : files ≠ []) (h : SameFiles files files') :
    (∀ k, k ∈ (moduleGraph tree files mode o).keys ↔ k ∈ (moduleGraph tree files' mode o).keys) ∧
    (∀ e, e ∈ (moduleGraph tree files mode o).edges ↔ e ∈ (moduleGraph tree files' mode o).edges) ∧
    ∃ r r' : GraphReport, graphReport tree files mode o = .ok r ∧
      graphReport tree files' mode o = .ok r' ∧ r.Agrees r' := by
  have hagrees := (h.isSubgraph tree mode o).report_agrees (h.symm.isSubgraph tree mode o)
    o.hubThreshold o.entryPoints
  exact ⟨hagrees.nodes, hagrees.edges, _, _, graphReport_eq_ok hfiles,
    graphReport_eq_ok (h.ne_nil hfiles), hagrees⟩

/-- Two files that import each other, put the other way round and one of them twice. -/
theorem graphReport_agrees_of_sameFiles_reversed :
    let a := SourceFile.of "a.ts" "import './b';"
    let b := SourceFile.of "b.ts" "export * from './a';"
    let g files := moduleGraph .empty files .virtual {}
    SameFiles [a, b] [b, a, b] ∧ (g [a, b]).keys = ["a.ts", "b.ts"] ∧
      (g [b, a, b]).keys = ["b.ts", "a.ts"] ∧
      (∀ e, e ∈ (g [a, b]).edges ↔ e ∈ (g [b, a, b]).edges) ∧
      ∃ r r' : GraphReport, graphReport .empty [a, b] .virtual {} = .ok r ∧
        graphReport .empty [b, a, b] .virtual {} = .ok r' ∧ r.Agrees r' := by
  intro a b g
  have hsame : SameFiles [a, b] [b, a, b] := by
    intro p
    simp only [List.map_cons, List.map_nil, List.mem_cons, List.not_mem_nil, or_false]
    tauto
  obtain ⟨-, hedges, hreports⟩ :=
    graphReport_agrees_of_sameFiles .empty .virtual {} (List.cons_ne_nil a [b]) hsame
  exact ⟨hsame, by decide +kernel, by decide +kernel, hedges, hreports⟩

end ScriptAtlas
