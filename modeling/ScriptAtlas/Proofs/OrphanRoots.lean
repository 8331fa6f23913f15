import Mathlib.Order.WellFoundedSet
import ScriptAtlas.Proofs.CycleCompleteness
import ScriptAtlas.Proofs.ReportContents

/-! # Where imports start

Going back from importer to importer ends if the graph is acyclic (`Acyclic.wellFounded_imports`),
and it ends at a module that nobody imports (`Acyclic.exists_root`). Such a module, if it imports
anything, is listed as an orphan or is an entry point. So the orphans and the entry points reach
every module that takes part in an import (`exists_orphan_or_entryPoint`). -/

namespace ScriptAtlas.ModuleGraph

variable {g : ModuleGraph} {x r : String}

/-- Importers are among the finitely many modules, so without a way round nobody has a chain of
importers without end. -/
theorem Acyclic.wellFounded_imports (h : g.Acyclic) : WellFounded g.Imports := by
  have horder : IsStrictOrder String (Relation.TransGen g.Imports) :=
    { irrefl := h, trans := fun _ _ _ => Relation.TransGen.trans }
  have hkeys : {k | k ∈ g.keys}.WellFoundedOn (Relation.TransGen g.Imports) :=
    (List.finite_toSet g.keys).wellFoundedOn
  have hacc : ∀ k ∈ g.keys, Acc g.Imports k := by
    intro k hk
    refine hkeys.induction hk fun y _ ih => ⟨y, fun z hzy => ?_⟩
    exact ih z hzy.mem_keys (.single hzy)
  exact ⟨fun x => ⟨x, fun y hyx => hacc y hyx.mem_keys⟩⟩

theorem Acyclic.exists_root (h : g.Acyclic) (x : String) :
    ∃ r, Relation.ReflTransGen g.Imports r x ∧ ∀ y, ¬ g.Imports y r := by
  induction x using h.wellFounded_imports.induction with
  | _ x ih =>
    by_cases hx : ∃ y, g.Imports y x
    · obtain ⟨y, hyx⟩ := hx
      obtain ⟨r, hry, hr⟩ := ih y hyx
      exact ⟨r, hry.tail hyx, hr⟩
    · exact ⟨x, .refl, fun y hyx => hx ⟨y, hyx⟩⟩

/-- The start of a way to a module that takes part in an import is an importer itself. -/
theorem exists_imports_of_root (hreach : Relation.ReflTransGen g.Imports r x)
    (hr : ∀ y, ¬ g.Imports y r) (hx : ∃ y, g.Imports x y ∨ g.Imports y x) :
    ∃ y, g.Imports r y := by
  rcases hreach.cases_head with rfl | ⟨y, hry, -⟩
  · obtain ⟨y, hout | hin⟩ := hx
    · exact ⟨y, hout⟩
    · exact absurd hin (hr y)
  · exact ⟨y, hry⟩

/-- **The orphans and the entry points miss no root.** If no cycle is found, every module that
imports or is imported is reached from one that is listed as an orphan, or from an entry point that
nobody imports. -/
theorem exists_orphan_or_entryPoint (stems : List String) (h : Cycle.cycles g = [])
    (hx : ∃ y, g.Imports x y ∨ g.Imports y x) :
    ∃ r ∈ g.keys, Relation.ReflTransGen g.Imports r x ∧
      (r ∈ g.orphans stems ∨ EntryPoint.accepts stems r = true ∧ ∀ y, ¬ g.Imports y r) := by
  obtain ⟨r, hreach, hr⟩ := (Cycle.acyclic_of_cycles_eq_nil h).exists_root x
  obtain ⟨y, hry⟩ := exists_imports_of_root hreach hr hx
  refine ⟨r, hry.mem_keys, hreach, ?_⟩
  cases hstems : EntryPoint.accepts stems r with
  | true => exact Or.inr ⟨rfl, hr⟩
  | false =>
    have hne : y ≠ r := fun heq => hr r (heq ▸ hry)
    exact Or.inl (mem_orphans.mpr ⟨⟨y, hry, hne⟩, fun z hzr => absurd hzr (hr z), hstems⟩)

/-- Behind an entry point and an orphan, a target that is no module of the graph is reached. -/
theorem exists_orphan_or_entryPoint_of_target :
    let g := ofList [("main.ts", ["a.ts"]), ("old.ts", ["a.ts"]), ("a.ts", ["b.ts"])]
    Cycle.cycles g = [] ∧ g.Imports "a.ts" "b.ts" ∧
      ∃ r ∈ g.keys, Relation.ReflTransGen g.Imports r "b.ts" ∧
        (r ∈ g.orphans ["main"] ∨
          EntryPoint.accepts ["main"] r = true ∧ ∀ y, ¬ g.Imports y r) := by
  intro g
  have hcycles : Cycle.cycles g = [] := by
    simp [g, Cycle.cycles, Cycle.Search.searchAll, Cycle.Search.searchFrom, Cycle.Search.start,
      Cycle.Search.enter, Cycle.Search.bound, Cycle.Search.run, Cycle.Search.step,
      Cycle.Search.look, Cycle.Search.leave, ofList, add, empty, ModuleEntry.extend,
      firstOccurrences, appendAllNew, appendNew, keys, edges, targets]
  have himports : g.Imports "a.ts" "b.ts" := by
    have hmem : "b.ts" ∈ g.targets "a.ts" := by decide
    exact hmem
  exact ⟨hcycles, himports, exists_orphan_or_entryPoint ["main"] hcycles ⟨"a.ts", Or.inr himports⟩⟩

end ScriptAtlas.ModuleGraph
