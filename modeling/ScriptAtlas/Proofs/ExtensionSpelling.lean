import Mathlib.Data.List.DropRight
import ScriptAtlas.CommandLine.Run
import ScriptAtlas.Proofs.LastPart
import ScriptAtlas.Proofs.SourceCollection

/-! # Two readings of the extension list

The extensions of a configuration are read twice. A resolver takes leading dots off and leaves out
what is empty then; a walk through a directory compares them with the extensions of files as they
are written. Resolution does not depend on the spelling (`moduleGraph_bare`). A walk does: it
misses files whose extension is listed with a dot only, and takes those whose name ends in a dot if
an empty extension is listed (`wants_bare_ne_iff`). Where no such file lies in a directory that is
walked, the two readings agree. -/

namespace ScriptAtlas

/-! ### Extensions without dots -/

namespace Resolver

variable {extensions : List String} {ext : List Char}

theorem mem_bareExtensions {e : String} :
    e ∈ bareExtensions extensions ↔
      e ≠ "" ∧ ∃ d ∈ extensions, String.ofList (d.toList.dropWhile (· = '.')) = e := by
  rw [bareExtensions, List.mem_filter, List.mem_map, decide_eq_true_eq, and_comm]

/-- Taking off dots a second time changes nothing. -/
theorem bareExtensions_bareExtensions (extensions : List String) :
    bareExtensions (bareExtensions extensions) = bareExtensions extensions := by
  have hbare : ∀ e ∈ bareExtensions extensions,
      String.ofList (e.toList.dropWhile (· = '.')) = e := by
    intro e he
    obtain ⟨-, d, -, rfl⟩ := mem_bareExtensions.mp he
    rw [String.toList_ofList, List.dropWhile_idempotent]
  have hmap := List.map_congr_left hbare
  rw [List.map_id'] at hmap
  rw [bareExtensions, hmap]
  exact List.filter_eq_self.mpr fun e he => (List.mem_filter.mp he).2

/-- What is behind the dots is an extension without dots. -/
theorem dropWhile_dots_eq_iff {cs : List Char} (hext : '.' ∉ ext) :
    cs.dropWhile (· = '.') = ext ↔ ∃ n, cs = List.replicate n '.' ++ ext := by
  constructor
  · rintro rfl
    refine ⟨(cs.takeWhile (· = '.')).length, ?_⟩
    have hdots : cs.takeWhile (· = '.') = List.replicate (cs.takeWhile (· = '.')).length '.' := by
      refine List.eq_replicate_iff.mpr ⟨rfl, fun c hc => ?_⟩
      simpa using List.mem_takeWhile_imp hc
    rw [← hdots, List.takeWhile_append_dropWhile]
  · rintro ⟨n, rfl⟩
    rw [List.dropWhile_append_of_pos (by simp)]
    cases ext with
    | nil => rfl
    | cons c cs =>
      have hc : c ≠ '.' := fun hc => hext (hc ▸ List.mem_cons_self)
      rw [List.dropWhile_cons_of_neg (by simpa using hc)]

theorem mem_bareExtensions_iff {e : String} (he : '.' ∉ e.toList) :
    e ∈ bareExtensions extensions ↔
      e ≠ "" ∧ ∃ n, String.ofList (List.replicate n '.' ++ e.toList) ∈ extensions := by
  rw [mem_bareExtensions]
  refine and_congr_right fun _ => ?_
  constructor
  · rintro ⟨d, hd, rfl⟩
    rw [String.toList_ofList] at he ⊢
    obtain ⟨n, hn⟩ := (dropWhile_dots_eq_iff he).mp rfl
    exact ⟨n, by rwa [← hn, String.ofList_toList]⟩
  · rintro ⟨n, hn⟩
    refine ⟨_, hn, ?_⟩
    rw [String.toList_ofList, (dropWhile_dots_eq_iff he).mpr ⟨n, rfl⟩, String.ofList_toList]

end Resolver

/-! ### Wanted files -/

/-- The extension of a name, if it is a text, has no dot. -/
theorem dot_not_mem_of_extension? {name : RawText} {ext : String}
    (h : name.extension? = some ext) : '.' ∉ ext.toList := by
  obtain ⟨bytes, hbytes, hext⟩ := Option.map_eq_some_iff.mp h
  have hdot := (Text.behindLast?_eq_some_iff.mp hbytes).1
  rw [← RawText.asciiByte_mem_encode_iff (by decide), ← RawText.bytes_ofString, ← hext]
  exact hdot

theorem WalkOptions.wants_eq_contains (o : WalkOptions) {name : RawText} {ext : String}
    (h : name.extension? = some ext) : o.wants name = o.extensions.contains ext := by
  rw [Bool.eq_iff_iff, wants_iff_exists, h, List.contains_iff_mem]
  simp [RawText.ofString_inj]

/-- The options with the extensions as resolvers read them. -/
def GraphOptions.bare (o : GraphOptions) : GraphOptions :=
  { o with extensions := Resolver.bareExtensions o.extensions }

/-- The configuration with the extensions as resolvers read them. -/
def Config.bare (c : Config) : Config := { c with graph := c.graph.bare }

/-- A name that a walk reads in another way than a resolver: its extension is listed, but only with
dots before it, or it is listed and empty. -/
def Misread (extensions : List String) (name : RawText) : Prop :=
  ∃ ext : String, name.extension? = some ↑ext ∧
    ((ext ≠ "" ∧ ext ∉ extensions ∧
        ∃ n, String.ofList (List.replicate (n + 1) '.' ++ ext.toList) ∈ extensions) ∨
      (ext = "" ∧ "" ∈ extensions))

theorem wants_bare_ne_iff {c : Config} {name : RawText} :
    c.bare.walkOptions.wants name ≠ c.walkOptions.wants name ↔
      Misread c.graph.extensions name := by
  by_cases htext : ∃ ext : String, name.extension? = some ↑ext
  · obtain ⟨ext, hext⟩ := htext
    have hdot := dot_not_mem_of_extension? hext
    have hmisread : Misread c.graph.extensions name ↔
        (ext ≠ "" ∧ ext ∉ c.graph.extensions ∧
          ∃ n, String.ofList (List.replicate (n + 1) '.' ++ ext.toList) ∈ c.graph.extensions) ∨
        (ext = "" ∧ "" ∈ c.graph.extensions) := by
      simp [Misread, hext, RawText.ofString_inj]
    have hbare : c.bare.walkOptions.wants name = true ↔
        ext ≠ "" ∧
          ∃ n, String.ofList (List.replicate n '.' ++ ext.toList) ∈ c.graph.extensions := by
      rw [WalkOptions.wants_eq_contains _ hext, List.contains_iff_mem]
      exact Resolver.mem_bareExtensions_iff hdot
    have hwritten : c.walkOptions.wants name = true ↔ ext ∈ c.graph.extensions := by
      rw [WalkOptions.wants_eq_contains _ hext, List.contains_iff_mem]
      rfl
    rw [hmisread, ne_eq, Bool.eq_iff_iff, hbare, hwritten]
    by_cases hnil : ext = ""
    · subst hnil
      simp
    · -- Without dots the extension is the one written; with some, only a resolver knows it.
      rw [← Nat.or_exists_add_one, List.replicate_zero, List.nil_append, String.ofList_toList]
      by_cases hmem : ext ∈ c.graph.extensions
      · simp [hnil, hmem]
      · simp [hnil, hmem]
  · -- Whatever is listed, it is a text.
    have hwants (o : WalkOptions) : o.wants name = false := by
      rw [← Bool.not_eq_true, WalkOptions.wants_iff_exists]
      exact fun ⟨ext, _, hext⟩ => htext ⟨ext, hext⟩
    have hmisread : ¬ Misread c.graph.extensions name := fun ⟨ext, hext, _⟩ => htext ⟨ext, hext⟩
    simp [hwants, hmisread]

/-! ### Walks -/

theorem filter_eq_filter_iff {α : Type} {p q : α → Bool} {l : List α} :
    l.filter p = l.filter q ↔ ∀ a ∈ l, p a = q a := by
  refine ⟨fun h a ha => ?_, fun h => List.filter_congr h⟩
  have hmem : a ∈ l.filter p ↔ a ∈ l.filter q := by rw [h]
  simpa [ha, ← Bool.eq_iff_iff] using hmem

/-- No file that a walk meets below the directory is misread. -/
def ReadAlike (c : Config) (entries : List FileEntry) : Prop :=
  ∀ f ∈ FileTree.walk c.walkOptions.ignores entries,
    ¬ Misread c.graph.extensions (f.names.getLastD ⟨[]⟩)

theorem filesBelow_bare_iff {c : Config} {entries : List FileEntry} :
    c.bare.walkOptions.filesBelow entries = c.walkOptions.filesBelow entries ↔
      ReadAlike c entries := by
  unfold WalkOptions.filesBelow
  refine filter_eq_filter_iff.trans (forall₂_congr fun f _ => ?_)
  rw [← wants_bare_ne_iff, not_not]

variable {tree : FileTree} {o o' : WalkOptions} {paths : List RawText}

theorem addPath_congr {path : RawText}
    (h : ∀ entries, tree.find path = .ok (.directory entries) →
      o.filesBelow entries = o'.filesBelow entries) (c : Collection) :
    c.addPath tree o path = c.addPath tree o' path := by
  cases hfind : tree.find path with
  | error e =>
    unfold Collection.addPath
    rw [hfind]
    rfl
  | ok target =>
    cases target with
    | file bytes =>
      unfold Collection.addPath
      rw [hfind]
      rfl
    | directory entries =>
      rw [Collection.addPath_of_directory hfind, Collection.addPath_of_directory hfind,
        h entries hfind]

theorem collect_congr
    (h : ∀ path ∈ paths, ∀ entries, tree.find path = .ok (.directory entries) →
      o.filesBelow entries = o'.filesBelow entries) :
    collect tree paths o = collect tree paths o' := by
  have hfold : ∀ c, paths.foldlM (Collection.addPath tree o) c =
      paths.foldlM (Collection.addPath tree o') c := by
    induction paths with
    | nil => exact fun _ => rfl
    | cons path paths ih =>
      intro c
      have hpaths := ih fun p hp => h p (List.mem_cons_of_mem _ hp)
      rw [List.foldlM_cons, List.foldlM_cons, addPath_congr (h path List.mem_cons_self)]
      exact bind_congr hpaths
  unfold collect
  rw [hfold]

/-- Directories without source files. -/
theorem collect_eq_nothingFound
    (h : ∀ path ∈ paths, ∃ entries, tree.find path = .ok (.directory entries) ∧
      o.filesBelow entries = []) :
    collect tree paths o = .error (.nothingFound (", ".intercalate (paths.map (·.shown)))) := by
  have hread : Readable tree o paths := by
    intro before path hpath
    obtain ⟨entries, hfind, -⟩ := h path (hpath.subset (by simp))
    exact problem?_eq_none_iff.mpr (Or.inl ⟨entries, hfind⟩)
  have hmet : met tree o paths = [] := by
    refine List.flatMap_eq_nil_iff.mpr fun path hpath => ?_
    obtain ⟨entries, hfind, hnil⟩ := h path hpath
    rw [metBy, hfind]
    simp only [hnil, List.map_nil]
  rw [hread.collect_eq, hmet]
  rfl

/-- No file has an extension that begins with a dot. -/
theorem WalkOptions.wants_eq_false_of_dotted (h : ∀ e ∈ o.extensions, e.toList.head? = some '.')
    (name : RawText) : o.wants name = false := by
  rw [← Bool.not_eq_true, wants_iff_exists]
  rintro ⟨ext, hmem, hext⟩
  exact dot_not_mem_of_extension? hext (List.mem_of_head? (h ext hmem))

theorem WalkOptions.filesBelow_eq_nil_of_dotted
    (h : ∀ e ∈ o.extensions, e.toList.head? = some '.') (entries : List FileEntry) :
    o.filesBelow entries = [] := by
  refine List.filter_eq_nil_iff.mpr fun f _ => ?_
  simp only [wants_eq_false_of_dotted h, Bool.false_eq_true, not_false_eq_true]

/-! ### Graphs -/

/-- Resolution does not depend on how the extensions are spelled. -/
theorem moduleGraph_bare (tree : FileTree) (files : List SourceFile) (mode : Addressing)
    (o : GraphOptions) : moduleGraph tree files mode o.bare = moduleGraph tree files mode o := by
  have hresolver : resolverFor tree files mode (Resolver.bareExtensions o.extensions) =
      resolverFor tree files mode o.extensions := by
    cases mode <;>
      simp only [resolverFor, Resolver.of, Resolver.bareExtensions_bareExtensions]
  unfold moduleGraph
  rw [GraphOptions.bare, hresolver]
  rfl

theorem graphReport_bare (tree : FileTree) (files : List SourceFile) (mode : Addressing)
    (o : GraphOptions) : graphReport tree files mode o.bare = graphReport tree files mode o := by
  unfold graphReport
  rw [moduleGraph_bare]
  rfl

/-! ### Commands -/

namespace CommandLine

variable {w : Surroundings} {c : Config} {s : Sources}

/-- Is no file misread in the directories that are walked for the sources? -/
def Sources.ReadAlike (s : Sources) (tree : FileTree) (c : Config) : Prop :=
  s.manifest = none → ∀ path ∈ s.paths, ∀ entries, tree.find path = .ok (.directory entries) →
    ScriptAtlas.ReadAlike c entries

theorem map_shown_ofString (paths : List String) :
    (paths.map RawText.ofString).map (·.shown) = paths := by
  simp [Function.comp_def, RawText.shown_ofString]

theorem Sources.ReadAlike.load_bare {tree : FileTree} (h : s.ReadAlike tree c) :
    s.load tree c.bare = s.load tree c := by
  unfold Sources.load
  cases hmanifest : s.manifest with
  | some path => rfl
  | none =>
    have hcollect : collect tree (s.paths.map .ofString) c.bare.walkOptions =
        collect tree (s.paths.map .ofString) c.walkOptions := by
      refine collect_congr (List.forall_mem_map.mpr fun path hpath entries hfind => ?_)
      exact filesBelow_bare_iff.mpr (h hmanifest path hpath entries hfind)
    rw [hcollect]

theorem Sources.ReadAlike.answer_bare (h : s.ReadAlike w.tree c) (threshold : Option Nat)
    (dynamic : Bool) (mode : Option Addressing) :
    (Command.graph s threshold dynamic mode).answer w c.bare =
      (Command.graph s threshold dynamic mode).answer w c := by
  have hoptions : graphOptions c.bare threshold dynamic =
      (graphOptions c threshold dynamic).bare := rfl
  simp only [Command.answer, h.load_bare, hoptions, graphReport_bare]

/-- **The walk and the resolver read the extensions alike where no file is misread.** Taking dots
off the extensions never changes the graph of given files. It changes the files found in a directory
exactly if one there is misread; so without such files a command loads the same sources and reports
the same graph. If all extensions are written with a dot, nothing is found in any directory. -/
theorem extensions_read_alike_unless_misread (w : Surroundings) (c : Config) (s : Sources) :
    (∀ files mode, moduleGraph w.tree files mode c.bare.graph =
      moduleGraph w.tree files mode c.graph) ∧
    (∀ entries, c.bare.walkOptions.filesBelow entries = c.walkOptions.filesBelow entries ↔
      ∀ f ∈ FileTree.walk c.walkOptions.ignores entries,
        ¬ Misread c.graph.extensions (f.names.getLastD ⟨[]⟩)) ∧
    (s.ReadAlike w.tree c →
      s.load w.tree c.bare = s.load w.tree c ∧
      ∀ threshold dynamic mode, (Command.graph s threshold dynamic mode).answer w c.bare =
        (Command.graph s threshold dynamic mode).answer w c) ∧
    ((∀ e ∈ c.graph.extensions, e.toList.head? = some '.') → s.manifest = none →
      (∀ path ∈ s.paths, ∃ entries, w.tree.find path = .ok (.directory entries)) →
      s.load w.tree c =
        .error (.collecting (.nothingFound (", ".intercalate s.paths)))) := by
  refine ⟨fun files mode => moduleGraph_bare w.tree files mode c.graph,
    fun entries => filesBelow_bare_iff, fun h => ⟨h.load_bare, h.answer_bare⟩, ?_⟩
  intro hdotted hmanifest hdirectories
  have hcollect : collect w.tree (s.paths.map .ofString) c.walkOptions =
      .error (.nothingFound (", ".intercalate s.paths)) := by
    have hnothing : ∀ path ∈ s.paths.map RawText.ofString, ∃ entries,
        w.tree.find path = .ok (.directory entries) ∧
          c.walkOptions.filesBelow entries = [] := by
      refine List.forall_mem_map.mpr fun path hpath => ?_
      obtain ⟨entries, hfind⟩ := hdirectories path hpath
      exact ⟨entries, hfind, WalkOptions.filesBelow_eq_nil_of_dotted hdotted entries⟩
    rw [collect_eq_nothingFound hnothing, map_shown_ofString]
  unfold Sources.load
  rw [hmanifest, hcollect]
  rfl

/-- An extension with a dot does no harm where no file has it. -/
theorem extensions_read_alike_unused_dot :
    let tree : FileTree := ⟨[.directory "src" [.file "a.ts" "a();".toUTF8]], []⟩
    let c : Config := { graph := { extensions := ["ts", ".js"] } }
    (Sources.mk ["src"] none).ReadAlike tree c ∧
      (Sources.mk ["src"] none).load tree c.bare = (Sources.mk ["src"] none).load tree c := by
  intro tree c
  have halike : (Sources.mk ["src"] none).ReadAlike tree c := by
    intro _ path hpath entries hfind
    obtain rfl : path = "src" := by simpa using hpath
    obtain rfl : [.file "a.ts" "a();".toUTF8] = entries := by
      have hsrc : tree.find "src" = .ok (.directory [.file "a.ts" "a();".toUTF8]) := rfl
      rw [hsrc] at hfind
      cases hfind
      rfl
    intro f hf
    obtain rfl : f = ⟨["a.ts"], "a();".toUTF8⟩ := by
      simpa [FileTree.walk, FileTree.groups, FileTree.filesOf, FileEntry.name] using hf
    rw [← wants_bare_ne_iff, not_not]
    decide +kernel
  obtain ⟨-, -, hload, -⟩ :=
    extensions_read_alike_unless_misread ⟨tree, .empty, false⟩ c ⟨["src"], none⟩
  exact ⟨halike, (hload halike).1⟩

/-- With a dot before the only extension no file is found; without it, all are. -/
theorem load_changed_by_bare :
    let tree : FileTree :=
      ⟨[.directory "src" [.file "a.ts" "a();".toUTF8, .file "b.ts" "b();".toUTF8]], []⟩
    let c : Config := { graph := { extensions := [".ts"] } }
    (Sources.mk ["src"] none).load tree c = .error (.collecting (.nothingFound "src")) ∧
      (Sources.mk ["src"] none).load tree c.bare =
        .ok ⟨[.of "src/a.ts" "a();", .of "src/b.ts" "b();"], .filesystem⟩ := by
  intro tree c
  have hfind : tree.find "src" =
      .ok (.directory [.file "a.ts" "a();".toUTF8, .file "b.ts" "b();".toUTF8]) := rfl
  have hsorted : RawText.ofString "a.ts" ≤ "b.ts" := by decide +kernel
  have hwritten : Collection.addPath tree c.walkOptions ⟨[], []⟩ "src" = .ok ⟨[], []⟩ := by
    rw [Collection.addPath_of_directory hfind, WalkOptions.filesBelow_pair _ hsorted]
    rfl
  have hbare : Collection.addPath tree c.bare.walkOptions ⟨[], []⟩ "src" =
      .ok ⟨[.of "src/a.ts" "a();", .of "src/b.ts" "b();"], ["src/b.ts", "src/a.ts"]⟩ := by
    rw [Collection.addPath_of_directory hfind, WalkOptions.filesBelow_pair _ hsorted]
    rfl
  constructor
  · simp only [Sources.load, collect, List.map_cons, List.foldlM_cons, hwritten]
    rfl
  · simp only [Sources.load, collect, List.map_cons, List.foldlM_cons, hbare]
    rfl

end CommandLine

end ScriptAtlas
