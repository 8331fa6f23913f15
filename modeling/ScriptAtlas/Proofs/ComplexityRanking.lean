import ScriptAtlas.CommandLine.Run
import ScriptAtlas.Proofs.CallerAttribution
import ScriptAtlas.Proofs.StableOrder

/-! # The ranking of functions by complexity

The list of functions and the ranking show the same functions: those that a look at the trees finds
(`map_listed_namedInAll`), file by file and in pre-order. The ranking puts them in descending order
of complexity and leaves equals as they stand in the list (`ranking_eq_descending`), so a number of
functions taken from its front are the most complex ones. -/

namespace ScriptAtlas

open Syntax

namespace Function

/-! ### The functions of a file -/

/-- A named function as a ranking shows it. -/
def Named.ranked (f : Named) : Ranked := ⟨f.name, f.file, f.complexity⟩

/-- The function at a place, if it has a name: as a ranking shows it, and its span. -/
def listedAt? (file : SourceFile) (tree : Node) (a : Address) : Option (Ranked × Span) :=
  (tree.at? a).bind fun n => (nameOf n (tree.parentAt? none a)).map fun name =>
    (⟨name, file.id, 1 + (n.addressesWhere isDecision).length⟩,
      shownSpan n (tree.parentAt? none a))

/-- The functions of a file that have names, in pre-order; none if the file cannot be read. -/
def listedIn (file : SourceFile) : List (Ranked × Span) :=
  file.tree?.elim [] fun tree =>
    (tree.addressesWhere isFunction).filterMap (listedAt? file tree)

theorem listed_of?_eq {file : SourceFile} {tree : Node} {a : Address} {e : Entry}
    (h : IsEntryAt none tree a e) :
    (Named.of? file e).map (fun f => (f.ranked, f.span)) = listedAt? file tree a := by
  obtain ⟨n, hn, hentry⟩ := h
  rw [listedAt?, hn, Option.bind_some, ← hentry.name_eq, ← hentry.span_eq, ← hentry.complexity_eq,
    Named.of?, Option.map_map]
  rfl

theorem map_listed_namedIn (file : SourceFile) :
    (namedIn file).map (fun f => (f.ranked, f.span)) = listedIn file := by
  rw [namedIn_eq_getD, listedIn, Index.ofFile?]
  cases file.tree? with
  | none => rfl
  | some tree =>
    show ((Index.of tree).functions.toList.filterMap (Named.of? file)).map _ = _
    rw [toList_functions_of, List.map_filterMap]
    exact (filterMap_eq_of_forall₂ (forall₂_entriesIn tree none) fun a e he =>
      (listed_of?_eq he).symm).symm

theorem map_listed_namedInAll (files : List SourceFile) :
    (namedInAll files).map (fun f => (f.ranked, f.span)) = files.flatMap listedIn := by
  rw [namedInAll, List.map_flatMap]
  exact congrArg (List.flatMap · files) (funext map_listed_namedIn)

/-! ### The ranking -/

theorem ranking_eq_descending (files : List SourceFile) :
    ranking files = (descending Named.complexity (namedInAll files)).map Named.ranked :=
  descending_map Ranked.complexity Named.ranked (namedInAll files)

theorem ranking_pairs_perm (files : List SourceFile) :
    ((ranking files).map fun r => (r.name, r.file)).Perm
      ((namedInAll files).map fun f => (f.name, f.file)) := by
  rw [ranking_eq_descending, List.map_map]
  exact (descending_perm _ _).map _

theorem pairwise_ranking (files : List SourceFile) :
    (ranking files).Pairwise fun a b => b.complexity ≤ a.complexity := by
  rw [ranking_eq_descending]
  exact List.pairwise_map.mpr (pairwise_descending Named.complexity _)

/-- A ranking by the positions in the list of functions. -/
theorem exists_order_ranking (files : List SourceFile) :
    ∃ order : List Nat, order.Perm (List.range (namedInAll files).length) ∧
      (ranking files).map some = order.map (fun i => (namedInAll files)[i]?.map Named.ranked) ∧
      order.Pairwise fun i j => ∀ f g, (namedInAll files)[i]? = some f →
        (namedInAll files)[j]? = some g →
          g.complexity < f.complexity ∨ g.complexity = f.complexity ∧ i < j := by
  obtain ⟨order, hperm, hmap, hpairwise⟩ :=
    exists_order_descending Named.complexity (namedInAll files)
  refine ⟨order, hperm, ?_, hpairwise⟩
  have hranked := congrArg (List.map (Option.map Named.ranked)) hmap
  rw [ranking_eq_descending]
  simpa [List.map_map, Function.comp_def] using hranked

end Function

/-! ### The command -/

namespace CommandLine

open ScriptAtlas.Function

/-- What the command for complex functions prints: as many functions as are asked for, from the
front of the ranking. -/
theorem run_hotspots {s : Surroundings} {i : Invocation} {sources : Sources} {top : Nat}
    {config : Config} {files : List SourceFile} {mode : Addressing}
    (hcommand : i.command = .hotspots sources top)
    (hconfig : configFor s.tree i = .ok config)
    (hloaded : sources.load s.tree config = .ok ⟨files, mode⟩) :
    run s i = .ok (
      if i.json then (Json.list (((ranking files).take top).map Ranked.toJson)).pretty ++ "\n"
      else (Output.hotspots ((ranking files).take top)).text s.colours) := by
  have hanswer : i.command.answer s config = .ok (.hotspots ((ranking files).take top)) := by
    rw [hcommand, Command.answer, hloaded]
    rfl
  rw [run, hconfig]
  simp only [bind, Except.bind, hanswer]
  rfl

/-- **The ranking is a stable reordering of the list of functions.** The list has the functions with
names that the trees hold, file by file and in pre-order, each with one more than the decisions in
it. The ranking has the same names and files, in descending order of complexity, and by their
positions in the list: all of them, and among equals the first one first. So what is taken from its
front is nowhere less complex than what is left, and the command prints just that. -/
theorem ranking_reorders_stably (files : List SourceFile) :
    (namedInAll files).map (fun f => (f.ranked, f.span)) = files.flatMap listedIn ∧
    ((ranking files).map fun r => (r.name, r.file)).Perm
      ((namedInAll files).map fun f => (f.name, f.file)) ∧
    ((ranking files).Pairwise fun a b => b.complexity ≤ a.complexity) ∧
    (∃ order : List Nat, order.Perm (List.range (namedInAll files).length) ∧
      (ranking files).map some = order.map (fun i => (namedInAll files)[i]?.map Named.ranked) ∧
      order.Pairwise fun i j => ∀ f g, (namedInAll files)[i]? = some f →
        (namedInAll files)[j]? = some g →
          g.complexity < f.complexity ∨ g.complexity = f.complexity ∧ i < j) ∧
    (∀ top, ∀ a ∈ (ranking files).take top, ∀ b ∈ (ranking files).drop top,
      b.complexity ≤ a.complexity) ∧
    ∀ s i sources top config mode, i.command = .hotspots sources top →
      configFor s.tree i = .ok config → sources.load s.tree config = .ok ⟨files, mode⟩ →
      run s i = .ok (
        if i.json then (Json.list (((ranking files).take top).map Ranked.toJson)).pretty ++ "\n"
        else (Output.hotspots ((ranking files).take top)).text s.colours) := by
  refine ⟨map_listed_namedInAll files, ranking_pairs_perm files, pairwise_ranking files,
    exists_order_ranking files, fun top a ha b hb => ?_, ?_⟩
  · exact key_le_of_mem_drop (pairwise_ranking files) ha hb
  · intro s i sources top config mode hcommand hconfig hloaded
    exact run_hotspots hcommand hconfig hloaded

/-- Three of four functions are equally complex, two have the same name, and a file between them is
broken. -/
theorem ranking_reorders_stably_ties :
    let a := "function flat() {} function one(x) { return x ? 1 : 0; }"
    let c := "class K { two(x) { if (x) {} } flat() { x && y(); } }"
    let tree : FileTree :=
      ⟨[.file "a.ts" a.toUTF8, .file "b.ts" "(".toUTF8, .file "c.ts" c.toUTF8], []⟩
    let files : List SourceFile := [.of "a.ts" a, .of "b.ts" "(", .of "c.ts" c]
    let sources : Sources := ⟨["a.ts", "b.ts", "c.ts"], none⟩
    let i : Invocation := ⟨false, "warn", none, .hotspots sources 2⟩
    configFor tree i = .ok {} ∧ sources.load tree {} = .ok ⟨files, .filesystem⟩ ∧
      ranking files =
        [⟨"one", "a.ts", 2⟩, ⟨"two", "c.ts", 2⟩, ⟨"flat", "c.ts", 2⟩, ⟨"flat", "a.ts", 1⟩] ∧
      run ⟨tree, .empty, false⟩ i = .ok "  2  one in a.ts\n  2  two in c.ts\n" := by
  intro a c tree files sources i
  have hconfig : configFor tree i = .ok {} := by decide +kernel
  have hcollect : collect tree ["a.ts", "b.ts", "c.ts"] (Config.walkOptions {}) = .ok files := by
    decide +kernel
  have hloaded : sources.load tree {} = .ok ⟨files, .filesystem⟩ := by
    simp only [Sources.load, sources, List.map_cons, List.map_nil, hcollect]
    rfl
  have hranked : (namedInAll files).map Named.ranked =
      [⟨"flat", "a.ts", 1⟩, ⟨"one", "a.ts", 2⟩, ⟨"two", "c.ts", 2⟩, ⟨"flat", "c.ts", 2⟩] := by
    decide +kernel
  have hranking : ranking files =
      [⟨"one", "a.ts", 2⟩, ⟨"two", "c.ts", 2⟩, ⟨"flat", "c.ts", 2⟩, ⟨"flat", "a.ts", 1⟩] := by
    have hsorted : ranking files =
        descending Ranked.complexity ((namedInAll files).map Named.ranked) := rfl
    rw [hsorted, hranked]
    simp [descending, List.mergeSort, List.MergeSort.Internal.splitInTwo]
  refine ⟨hconfig, hloaded, hranking, ?_⟩
  have hrun := (ranking_reorders_stably files).2.2.2.2.2 ⟨tree, .empty, false⟩ i sources 2 {}
    .filesystem rfl hconfig hloaded
  rw [hrun, hranking]
  decide +kernel

end CommandLine

end ScriptAtlas
