import ScriptAtlas.Graph.Report
import ScriptAtlas.Proofs.CanonicalPath
import ScriptAtlas.Proofs.InsertionOrder

/-! # The module graph of some files

What the graph of some files holds is said here file by file (`readableIds`, `importsOf`), and
`moduleGraph_exact` shows that the graph is just that: its modules are the readable files under
their canonical ids, followed by what they import besides. Files of one canonical id are one module.
All ids in the graph are in canonical form, unless a file tree is searched with extensions that have
slashes of their own. -/

namespace ScriptAtlas

/-! ### What a name resolves to -/

namespace Resolver

variable {r : Resolver} {importer specifier target : String}

theorem mem_candidates_of_resolve (h : r.resolve importer specifier = some target) :
    target ∈ candidates r.extensions (base importer specifier) ∧ r.contains target = true := by
  unfold resolve at h
  split at h
  · exact ⟨List.mem_of_find?_eq_some h, List.find?_some h⟩
  · simp at h

/-- An extension that does not leave the directory. -/
def IsPlain (ext : String) : Prop := '/' ∉ ext.toList ∧ '\\' ∉ ext.toList

theorem isPlain_of_mem_bareExtensions {extensions : List String} (h : ∀ e ∈ extensions, IsPlain e)
    {ext : String} (hext : ext ∈ bareExtensions extensions) : ext ≠ "" ∧ IsPlain ext := by
  obtain ⟨hmem, hne⟩ := List.mem_filter.mp hext
  obtain ⟨e, he, rfl⟩ := List.mem_map.mp hmem
  have hsub : ∀ c ∈ e.toList.dropWhile (· = '.'), c ∈ e.toList := fun c hc =>
    (List.dropWhile_sublist _).subset hc
  refine ⟨by simpa using hne, fun hc => (h e he).1 ?_, fun hc => (h e he).2 ?_⟩
  · exact hsub _ (by simpa using hc)
  · exact hsub _ (by simpa using hc)

theorem normalize_of_mem_indexFiles {extensions : List String} {path dir : String}
    (hpath : Path.normalize path = path)
    (hdir : dir = if path = "" ∨ path = "/" then path else path ++ "/")
    (hext : ∀ e ∈ extensions, IsPlain e) (h : target ∈ indexFiles extensions dir) :
    Path.normalize target = target := by
  obtain ⟨e, he, rfl⟩ := List.mem_map.mp h
  obtain ⟨hslash, hback⟩ := hext e he
  rw [String.append_assoc]
  refine Path.normalize_file hpath hdir ?_ ?_ ?_
  · have hindex : "index.".toList.length = 6 := by decide
    rw [String.toList_append, List.length_append]
    omega
  · simpa using hslash
  · simpa using hback

/-- What is tried for a path: the path itself and with an extension, unless it is empty or the root,
and the index files below it. -/
theorem mem_candidates_iff {extensions : List String} {path : String} :
    target ∈ candidates extensions path ↔
      ((path ≠ "" ∧ path ≠ "/") ∧
        (target = path ∨ ∃ e ∈ extensions, target = path ++ "." ++ e)) ∨
      target ∈ indexFiles extensions (if path = "" ∨ path = "/" then path else path ++ "/") := by
  unfold candidates
  by_cases hroot : path = "" ∨ path = "/"
  · rw [if_pos (by simpa using hroot), if_pos hroot]
    simp [← not_or, hroot]
  · rw [if_neg (by simpa using hroot), if_neg hroot]
    simp [← not_or, hroot, eq_comm, or_assoc]

theorem normalize_of_mem_candidates {extensions : List String} {path : String}
    (hpath : Path.normalize path = path) (hext : ∀ e ∈ extensions, e ≠ "" ∧ IsPlain e)
    (h : target ∈ candidates extensions path) : Path.normalize target = target := by
  have hplain : ∀ e ∈ extensions, IsPlain e := fun e he => (hext e he).2
  rcases mem_candidates_iff.mp h with ⟨⟨hempty, hroot⟩, rfl | ⟨e, he, rfl⟩⟩ | h
  · exact hpath
  · exact Path.normalize_addExtension hpath hempty hroot (hext e he).1 (hplain e he).1
      (hplain e he).2
  · exact normalize_of_mem_indexFiles hpath rfl hplain h

end Resolver

variable {tree : FileTree} {files : List SourceFile} {mode : Addressing}
  {extensions : List String} {importer specifier target : String}

theorem exists_file_of_resolve_virtual
    (h : (resolverFor tree files .virtual extensions).resolve importer specifier = some target) :
    ∃ f ∈ files, Path.normalize f.id = target := by
  have hmem := (Resolver.mem_candidates_of_resolve h).2
  simpa [resolverFor, Resolver.of] using hmem

theorem normalize_of_resolve
    (h : (resolverFor tree files mode extensions).resolve importer specifier = some target)
    (hmode : mode = .virtual ∨ ∀ e ∈ extensions, Resolver.IsPlain e) :
    Path.normalize target = target := by
  rcases hmode with rfl | hext
  · obtain ⟨f, -, rfl⟩ := exists_file_of_resolve_virtual h
    exact Path.normalize_normalize f.id
  · have hbare : (resolverFor tree files mode extensions).extensions =
        Resolver.bareExtensions extensions := by cases mode <;> rfl
    refine Resolver.normalize_of_mem_candidates (Path.normalize_normalize _) (fun e he => ?_)
      (Resolver.mem_candidates_of_resolve h).1
    rw [hbare] at he
    exact Resolver.isPlain_of_mem_bareExtensions hext he

/-! ### What the files say -/

/-- Does the mention of a module count as an import? One that is evaluated only when the program
gets there counts if the options say so. -/
def GraphOptions.counts (o : GraphOptions) (m : Import.Record) : Bool :=
  match m.form with
  | .static | .reexport => true
  | .dynamic | .require => o.includeDynamicImports

theorem GraphOptions.wants_eq_counts (o : GraphOptions) : o.wants = o.counts := by
  funext m
  unfold wants counts
  cases m.form <;> simp [Import.Form.isStatic]

/-- The canonical ids of the files that can be read. -/
def readableIds (files : List SourceFile) : List String :=
  (files.filter fun f => (Import.inFile? f).isSome).map fun f => Path.normalize f.id

/-- The modules that readable files of the canonical id `k` import, file by file and in the order in
which they are mentioned. -/
def importsOf (r : Resolver) (o : GraphOptions) (files : List SourceFile) (k : String) :
    List String :=
  let records := (files.filter fun f => Path.normalize f.id = k).flatMap fun f =>
    (Import.inFile? f).getD []
  (records.filter o.counts).filterMap fun m => r.resolve k m.specifier

/-- Does the file import the module? -/
def SourceFile.ImportsModule (r : Resolver) (o : GraphOptions) (f : SourceFile) (target : String) :
    Prop :=
  ∃ records, Import.inFile? f = some records ∧
    ∃ m ∈ records, o.counts m = true ∧ r.resolve (Path.normalize f.id) m.specifier = some target

variable {r : Resolver} {o : GraphOptions} {k : String}

theorem mem_readableIds :
    k ∈ readableIds files ↔ ∃ f ∈ files, (Import.inFile? f).isSome ∧ Path.normalize f.id = k := by
  simp only [readableIds, List.mem_map, List.mem_filter, and_assoc]

theorem map_fst_moduleOf (r : Resolver) (o : GraphOptions) (files : List SourceFile) :
    (files.filterMap (moduleOf? r o)).map (·.1) = readableIds files := by
  unfold readableIds
  induction files with
  | nil => rfl
  | cons f files ih =>
    cases hf : Import.inFile? f with
    | none => simp [moduleOf?, hf, ← ih]
    | some records => simp [moduleOf?, hf, ← ih]

theorem flatMap_snd_moduleOf (r : Resolver) (o : GraphOptions) (files : List SourceFile)
    (k : String) :
    ((files.filterMap (moduleOf? r o)).filter (·.1 = k)).flatMap (·.2) = importsOf r o files k := by
  unfold importsOf
  induction files with
  | nil => rfl
  | cons f files ih =>
    by_cases hk : Path.normalize f.id = k
    · subst hk
      cases hf : Import.inFile? f with
      | none => simp [moduleOf?, hf, ih]
      | some records => simp [moduleOf?, hf, ih, GraphOptions.wants_eq_counts]
    · cases hf : Import.inFile? f with
      | none => simp [moduleOf?, hf, hk, ih]
      | some records => simp [moduleOf?, hf, hk, ih]

theorem mem_importsOf :
    target ∈ importsOf r o files k ↔
      ∃ f ∈ files, Path.normalize f.id = k ∧ f.ImportsModule r o target := by
  simp only [importsOf, List.mem_filterMap, List.mem_filter, List.mem_flatMap, decide_eq_true_eq]
  constructor
  · rintro ⟨m, ⟨⟨f, ⟨hf, rfl⟩, hm⟩, hcounts⟩, htarget⟩
    cases hread : Import.inFile? f with
    | none => simp [hread] at hm
    | some records =>
      rw [hread, Option.getD_some] at hm
      exact ⟨f, hf, rfl, records, hread, m, hm, hcounts, htarget⟩
  · rintro ⟨f, hf, rfl, records, hread, m, hm, hcounts, htarget⟩
    exact ⟨m, ⟨⟨f, ⟨hf, rfl⟩, by simpa [hread] using hm⟩, hcounts⟩, htarget⟩

/-! ### The graph -/

theorem targets_moduleGraph (tree : FileTree) (files : List SourceFile) (mode : Addressing)
    (o : GraphOptions) (k : String) :
    (moduleGraph tree files mode o).targets k =
      (importsOf (resolverFor tree files mode o.extensions) o files k).eraseDups := by
  rw [moduleGraph, ModuleGraph.targets_close, ModuleGraph.targets_ofList, flatMap_snd_moduleOf]

theorem keys_moduleGraph (tree : FileTree) (files : List SourceFile) (mode : Addressing)
    (o : GraphOptions) :
    let r := resolverFor tree files mode o.extensions
    let modules := (readableIds files).eraseDups
    let targets := modules.flatMap fun k => (importsOf r o files k).eraseDups
    (moduleGraph tree files mode o).keys =
      modules ++ (targets.filter (· ∉ modules)).eraseDups := by
  intro r modules targets
  have htargets : (ModuleGraph.ofList (files.filterMap (moduleOf? r o))).targets =
      fun k => (importsOf r o files k).eraseDups := by
    funext k
    rw [ModuleGraph.targets_ofList, flatMap_snd_moduleOf]
  rw [moduleGraph, ModuleGraph.keys_close, htargets, ModuleGraph.keys_ofList, map_fst_moduleOf]

theorem mem_keys_moduleGraph :
    k ∈ (moduleGraph tree files mode o).keys ↔ k ∈ readableIds files ∨
      ∃ f ∈ files, f.ImportsModule (resolverFor tree files mode o.extensions) o k := by
  simp only [moduleGraph, ModuleGraph.mem_keys_close, ModuleGraph.keys_ofList, map_fst_moduleOf,
    List.mem_eraseDups, ModuleGraph.Imports, ModuleGraph.targets_ofList, flatMap_snd_moduleOf,
    mem_importsOf]
  refine or_congr_right ⟨?_, ?_⟩
  · rintro ⟨x, f, hf, -, himports⟩
    exact ⟨f, hf, himports⟩
  · rintro ⟨f, hf, himports⟩
    exact ⟨_, f, hf, rfl, himports⟩

theorem imports_moduleGraph {x : String} :
    (moduleGraph tree files mode o).Imports x target ↔
      ∃ f ∈ files, Path.normalize f.id = x ∧
        f.ImportsModule (resolverFor tree files mode o.extensions) o target := by
  rw [ModuleGraph.Imports, targets_moduleGraph, List.mem_eraseDups, mem_importsOf]

theorem exists_file_of_mem_keys (h : k ∈ (moduleGraph tree files .virtual o).keys) :
    ∃ f ∈ files, Path.normalize f.id = k := by
  rcases mem_keys_moduleGraph.mp h with h | ⟨f, -, records, -, m, -, -, hresolve⟩
  · obtain ⟨f, hf, -, hid⟩ := mem_readableIds.mp h
    exact ⟨f, hf, hid⟩
  · exact exists_file_of_resolve_virtual hresolve

theorem normalize_of_mem_keys (hmode : mode = .virtual ∨ ∀ e ∈ o.extensions, Resolver.IsPlain e)
    (h : k ∈ (moduleGraph tree files mode o).keys) : Path.normalize k = k := by
  rcases mem_keys_moduleGraph.mp h with h | ⟨f, -, records, -, m, -, -, hresolve⟩
  · obtain ⟨f, -, -, rfl⟩ := mem_readableIds.mp h
    exact Path.normalize_normalize f.id
  · exact normalize_of_resolve hresolve hmode

/-- **The graph holds what the files say.** Its modules are the readable files, in order, and behind
them what they import besides; the targets of a module are what the files of its id import, in
order. All targets are modules, no module stands twice, and a file that cannot be read is a module
just if a readable file has its id as well or imports it. -/
theorem moduleGraph_exact (tree : FileTree) (files : List SourceFile) (mode : Addressing)
    (o : GraphOptions) :
    let g := moduleGraph tree files mode o
    let r := resolverFor tree files mode o.extensions
    let modules := (readableIds files).eraseDups
    let targets := modules.flatMap fun k => (importsOf r o files k).eraseDups
    g.keys = modules ++ (targets.filter (· ∉ modules)).eraseDups ∧
    (∀ k, g.targets k = (importsOf r o files k).eraseDups) ∧
    (∀ k, g.targets k ⊆ g.keys) ∧
    (∀ f ∈ files, Import.inFile? f = none →
      (Path.normalize f.id ∈ g.keys ↔
        (∃ f' ∈ files, f' ≠ f ∧ (Import.inFile? f').isSome ∧
          Path.normalize f'.id = Path.normalize f.id) ∨
        ∃ f' ∈ files, f'.ImportsModule r o (Path.normalize f.id))) ∧
    g.keys.Nodup ∧
    (∀ k t, g.Imports k t ↔ ∃ f ∈ files, Path.normalize f.id = k ∧ f.ImportsModule r o t) ∧
    (mode = .virtual → ∀ k ∈ g.keys, ∃ f ∈ files, Path.normalize f.id = k) ∧
    (mode = .virtual ∨ (∀ e ∈ o.extensions, '/' ∉ e.toList ∧ '\\' ∉ e.toList) →
      ∀ k ∈ g.keys, Path.normalize k = k ∧ ∀ t ∈ g.targets k, Path.normalize t = t) := by
  intro g r modules targets
  have hclosed : ∀ k, g.targets k ⊆ g.keys := ModuleGraph.targets_close_subset_keys _
  refine ⟨keys_moduleGraph tree files mode o, targets_moduleGraph tree files mode o, hclosed, ?_,
    g.nodup_keys, fun k t => imports_moduleGraph, ?_, ?_⟩
  · intro f _ hf
    rw [mem_keys_moduleGraph, mem_readableIds]
    refine or_congr_left (exists_congr fun f' => and_congr_right fun _ => ?_)
    refine ⟨fun ⟨hread, hid⟩ => ⟨?_, hread, hid⟩, And.right⟩
    -- The readable file of this id is another one, since this one cannot be read.
    rintro rfl
    simp [hf] at hread
  · rintro rfl k hk
    exact exists_file_of_mem_keys hk
  · intro hmode k hk
    have hfixed : ∀ j ∈ g.keys, Path.normalize j = j := fun j hj => normalize_of_mem_keys hmode hj
    exact ⟨hfixed k hk, fun t ht => hfixed t (hclosed k ht)⟩

/-- Two readable files of one id, and a broken one that the first imports. -/
theorem moduleGraph_exact_merged :
    let broken := SourceFile.of "b.ts" "("
    let files := [.of "./a.ts" "import './b';", .of "x/../a.ts" "export * from '.';",
      .of "index.ts" "", broken]
    let g := moduleGraph .empty files .virtual {}
    Import.inFile? broken = none ∧ "b.ts" ∈ g.keys ∧ g.targets "a.ts" = ["b.ts", "index.ts"] ∧
      (∀ k ∈ g.keys, ∃ f ∈ files, Path.normalize f.id = k) ∧
      ∀ k ∈ g.keys, Path.normalize k = k ∧ ∀ t ∈ g.targets k, Path.normalize t = t := by
  intro broken files g
  obtain ⟨-, htargets, -, hunreadable, -, -, hvirtual, hfixed⟩ :=
    moduleGraph_exact .empty files .virtual {}
  have hbroken : Import.inFile? broken = none := by decide +kernel
  have himports : (SourceFile.of "./a.ts" "import './b';").ImportsModule
      (resolverFor .empty files .virtual ({} : GraphOptions).extensions) {} "b.ts" :=
    ⟨[⟨"./b", .static⟩], by decide +kernel, ⟨"./b", .static⟩, by simp, rfl, by decide +kernel⟩
  have hid : Path.normalize broken.id = "b.ts" := by decide +kernel
  have hmem := hunreadable broken (by simp [files]) hbroken
  rw [hid] at hmem
  refine ⟨hbroken, hmem.mpr (Or.inr ⟨_, by simp [files], himports⟩), ?_, hvirtual rfl,
    hfixed (Or.inl rfl)⟩
  rw [htargets]
  decide +kernel

/-- A broken file is a module although no file imports it, for a readable one has its id as well. -/
theorem broken_module_not_imported :
    let broken := SourceFile.of "./a.ts" "("
    let files := [broken, .of "a.ts" ""]
    let r := resolverFor .empty files .virtual ({} : GraphOptions).extensions
    Import.inFile? broken = none ∧
      Path.normalize broken.id ∈ (moduleGraph .empty files .virtual {}).keys ∧
      ¬ ∃ f ∈ files, f.ImportsModule r {} (Path.normalize broken.id) := by
  intro broken files r
  have hbroken : Import.inFile? broken = none := by decide +kernel
  have hempty : Import.inFile? (.of "a.ts" "") = some [] := by decide +kernel
  refine ⟨hbroken, by decide +kernel, ?_⟩
  rintro ⟨f, hf, records, hread, m, hm, -⟩
  rcases List.mem_pair.mp hf with rfl | rfl
  · rw [hbroken] at hread
    cases hread
  · rw [hempty] at hread
    cases hread
    cases hm

end ScriptAtlas
