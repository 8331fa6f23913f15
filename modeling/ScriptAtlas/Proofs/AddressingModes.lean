import Mathlib.Data.List.Find
import ScriptAtlas.Proofs.ImporterDirectory
import ScriptAtlas.Proofs.WalkOrder

/-! # Looking modules up among the files and in a file tree

If the regular files of a tree are the files at hand, it makes no difference whether a module is
looked up among the files, by its id, or in the tree, by following its path. Each path tried for a
name is in canonical form and, unless the name leaves the working directory, stays below it
(`isInner_of_mem_candidates`). For such paths both ways of looking up agree, so the module graphs
are the same (`moduleGraph_filesystem_eq_virtual`). -/

namespace ScriptAtlas

open ScriptAtlas.Path

/-! ### Paths that stay below -/

namespace Resolver

variable {extensions : List String} {path target importer specifier : String}

theorem ne_empty_of_mem_candidates (h : target ∈ candidates extensions path) : target ≠ "" := by
  rcases mem_candidates_iff.mp h with ⟨⟨hempty, -⟩, rfl | ⟨e, -, rfl⟩⟩ | h
  · exact hempty
  · simp
  · obtain ⟨e, -, rfl⟩ := List.mem_map.mp h
    simp

theorem not_climbs_of_mem_candidates (hpath : ¬ Climbs path) (hroot : path ≠ "/")
    (hext : ∀ e ∈ extensions, e ≠ "" ∧ IsPlain e) (h : target ∈ candidates extensions path) :
    ¬ Climbs target := by
  rcases mem_candidates_iff.mp h with ⟨⟨hempty, -⟩, rfl | ⟨e, he, rfl⟩⟩ | h
  · exact hpath
  · rw [String.append_assoc]
    exact not_climbs_append_dot hpath hempty (hext e he).1 (hext e he).2.1
  · obtain ⟨e, -, rfl⟩ := List.mem_map.mp h
    by_cases hempty : path = ""
    · subst hempty
      rw [climbs_iff_takeWhile]
      simp [dotDot]
    · rw [if_neg (not_or.mpr ⟨hempty, hroot⟩), String.append_assoc, String.append_assoc]
      exact not_climbs_append_slash hpath _

/-- What is tried for a path that stays below the working directory stays below it too. -/
theorem isInner_of_mem_candidates (hpath : Path.normalize path = path)
    (hrelative : isAbsolute path.toList = false) (hclimbs : ¬ Climbs path)
    (hext : ∀ e ∈ extensions, e ≠ "" ∧ IsPlain e) (h : target ∈ candidates extensions path) :
    Path.normalize target = target ∧ IsInner target := by
  have htarget := normalize_of_mem_candidates hpath hext h
  have hroot : path ≠ "/" := by
    rintro rfl
    simp [isAbsolute] at hrelative
  refine ⟨htarget, ?_, ?_, ?_⟩
  · rw [htarget, isAbsolute_of_mem_candidates h, hrelative]
  · rw [htarget]
    exact ne_empty_of_mem_candidates h
  · rw [htarget]
    exact not_climbs_of_mem_candidates hclimbs hroot hext h

end Resolver

/-! ### Resolution -/

variable {tree : FileTree} {files : List SourceFile} {extensions : List String}
  {importer specifier : String}

theorem resolve_filesystem_eq_virtual
    (hids : ∀ f ∈ files, Path.normalize f.id = f.id ∧ isAbsolute f.id.toList = false)
    (htree : tree.HoldsExactly (files.map (·.id)))
    (hext : ∀ e ∈ extensions, Resolver.IsPlain e) (himporter : IsInner importer)
    (hbase : Resolver.isRelative specifier = true →
      ¬ Climbs (Resolver.base importer specifier)) :
    (resolverFor tree files .filesystem extensions).resolve importer specifier =
      (resolverFor tree files .virtual extensions).resolve importer specifier := by
  by_cases hspecifier : Resolver.isRelative specifier = true
  · have hrelative : isAbsolute (Resolver.base importer specifier).toList = false := by
      rw [Resolver.isAbsolute_base himporter.normalize_eq (isCanonical_written _) hspecifier]
      rfl
    have hpaths : ∀ p ∈ files.map (·.id), Path.normalize p = p ∧ isAbsolute p.toList = false :=
      List.forall_mem_map.mpr hids
    have hnormal : (files.map fun f => Path.normalize f.id) = files.map (·.id) :=
      List.map_congr_left fun f hf => (hids f hf).1
    simp only [Resolver.resolve, hspecifier, if_true, resolverFor, Resolver.of, hnormal]
    refine List.find?_congr fun target htarget => ?_
    obtain ⟨hnormalized, hinner⟩ := Resolver.isInner_of_mem_candidates (normalize_normalize _)
      hrelative (hbase hspecifier) (fun e he => Resolver.isPlain_of_mem_bareExtensions hext he)
      htarget
    rw [Bool.eq_iff_iff, htree.isFile_iff_mem hpaths hnormalized hinner, List.contains_iff_mem]
  · simp [Resolver.resolve, hspecifier]

/-! ### Module graphs -/

variable {o : GraphOptions}

theorem moduleOf?_congr {r r' : Resolver} {f : SourceFile}
    (h : ∀ m ∈ (Import.inFile? f).getD [], o.counts m = true →
      r.resolve (Path.normalize f.id) m.specifier = r'.resolve (Path.normalize f.id) m.specifier) :
    moduleOf? r o f = moduleOf? r' o f := by
  unfold moduleOf?
  refine Option.map_congr fun records hread => congrArg (Prod.mk _) ?_
  refine List.filterMap_congr fun m hm => ?_
  obtain ⟨hmem, hwants⟩ := List.mem_filter.mp hm
  rw [GraphOptions.wants_eq_counts] at hwants
  refine h m ?_ hwants
  rw [hread, Option.getD_some]
  exact hmem

/-- Does the file import something above the working directory? -/
def SourceFile.ImportsAbove (o : GraphOptions) (f : SourceFile) : Prop :=
  ∃ m ∈ (Import.inFile? f).getD [], o.counts m = true ∧
    Resolver.isRelative m.specifier = true ∧ Climbs (Resolver.base f.id m.specifier)

/-- **Files at hand and files in a tree give one graph.** Let the ids of the files be relative
canonical paths below the working directory, and let them be the regular files of the tree. If no
extension has a slash and no import leaves the working directory, then the module graph is the same,
with all its orders, whichever way modules are looked up, and so is the report. -/
theorem moduleGraph_filesystem_eq_virtual
    (hids : ∀ f ∈ files, Path.normalize f.id = f.id ∧ isAbsolute f.id.toList = false ∧
      ¬ Climbs f.id)
    (htree : tree.HoldsExactly (files.map (·.id)))
    (hext : ∀ e ∈ o.extensions, Resolver.IsPlain e)
    (habove : ∀ f ∈ files, ¬ f.ImportsAbove o) :
    moduleGraph tree files .filesystem o = moduleGraph tree files .virtual o ∧
      graphReport tree files .filesystem o = graphReport tree files .virtual o := by
  have hmodules : files.filterMap (moduleOf? (resolverFor tree files .filesystem o.extensions) o) =
      files.filterMap (moduleOf? (resolverFor tree files .virtual o.extensions) o) := by
    refine List.filterMap_congr fun f hf => moduleOf?_congr fun m hm hcounts => ?_
    obtain ⟨hid, hrelative, hclimbs⟩ := hids f hf
    have hinner : IsInner f.id := by
      refine ⟨?_, ?_, ?_⟩ <;> rw [hid]
      · exact hrelative
      · exact htree.ne_empty (List.mem_map_of_mem hf)
      · exact hclimbs
    rw [hid]
    refine resolve_filesystem_eq_virtual (fun f hf => ⟨(hids f hf).1, (hids f hf).2.1⟩) htree hext
      hinner fun hspecifier hclimbing => ?_
    exact habove f hf ⟨m, hm, hcounts, hspecifier, hclimbing⟩
  have hgraph : moduleGraph tree files .filesystem o = moduleGraph tree files .virtual o := by
    exact congrArg (fun modules => (ModuleGraph.ofList modules).close) hmodules
  refine ⟨hgraph, ?_⟩
  unfold graphReport
  rw [hgraph]

/-- A name that is a directory's and, with an extension, a file's, and a name for the top. -/
theorem moduleGraph_filesystem_eq_virtual_clash :
    let files : List SourceFile := [.of "index.ts" "",
      .of "src/main.ts" "import './util'; import '..';", .of "src/util/index.ts" "",
      .of "src/util.ts" ""]
    let tree : FileTree := ⟨[.directory "src" [.file "util.ts" .empty, .file "main.ts" .empty,
      .directory "util" [.file "index.ts" .empty]], .file "index.ts" .empty], []⟩
    tree.isDirectory "src/util" = true ∧ tree.HoldsExactly (files.map (·.id)) ∧
      (moduleGraph tree files .virtual {}).targets "src/main.ts" = ["src/util.ts", "index.ts"] ∧
      moduleGraph tree files .filesystem {} = moduleGraph tree files .virtual {} ∧
      graphReport tree files .filesystem {} = graphReport tree files .virtual {} := by
  intro files tree
  have hdistinct : FileTree.DistinctNames tree.entries := by
    refine .intro (by decide) fun name inner hsrc => ?_
    obtain ⟨-, rfl⟩ : name = "src" ∧ _ := by simpa [tree] using hsrc
    refine .intro (by decide) fun name inner hutil => ?_
    obtain ⟨-, rfl⟩ : name = "util" ∧ _ := by simpa using hutil
    exact .intro (by decide) (by simp)
  let ways : List (List RawText) := [["index.ts"], ["src", "main.ts"],
    ["src", "util", "index.ts"], ["src", "util.ts"]]
  have hways : (files.map (·.id)).map FileTree.wayTo = ways := by decide +kernel
  have hsorted : ¬ RawText.ofString "src" ≤ "index.ts" ∧ ¬ RawText.ofString "util.ts" ≤ "main.ts" ∧
      RawText.ofString "main.ts" ≤ "util" ∧ ¬ RawText.ofString "util.ts" ≤ "util" := by
    decide +kernel
  have hwalk : (FileTree.walk (fun _ => false) tree.entries).map (·.names) =
      (files.map (·.id)).map FileTree.wayTo := by
    rw [hways]
    simp [tree, ways, FileTree.walk, FileTree.groups, FileTree.filesOf, FileEntry.name,
      List.mergeSort, List.MergeSort.Internal.splitInTwo, hsorted]
  have htree : tree.HoldsExactly (files.map (·.id)) := by
    refine ⟨hdistinct, fun names => ?_⟩
    rw [FileTree.holdsFile_iff_mem_walk, ← List.mem_map, hwalk, List.mem_map]
  have hids : ∀ f ∈ files, Path.normalize f.id = f.id ∧ isAbsolute f.id.toList = false ∧
      ¬ Climbs f.id := by decide +kernel
  have hext : ∀ e ∈ ({} : GraphOptions).extensions, '/' ∉ e.toList ∧ '\\' ∉ e.toList := by
    decide +kernel
  have habove : ∀ f ∈ files, ¬ ∃ m ∈ (Import.inFile? f).getD [],
      ({} : GraphOptions).counts m = true ∧ Resolver.isRelative m.specifier = true ∧
        Climbs (Resolver.base f.id m.specifier) := by decide +kernel
  exact ⟨by decide +kernel, htree, by decide +kernel,
    moduleGraph_filesystem_eq_virtual hids htree hext habove⟩

end ScriptAtlas
