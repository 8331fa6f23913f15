import ScriptAtlas.Loading
import ScriptAtlas.Proofs.FirstOfEach
import ScriptAtlas.Proofs.RawTexts

/-! # The source files that paths lead to

A path leads to the file that it names, or to the source files that a walk finds below the directory
(`metBy`). Of the files that several paths lead to, the first one under each id counts, and it is
collected if it is a text (`Collection.Holds`). A named file that counts and is no text stops
the collection, like a path that leads nowhere (`problem?`); a found one is passed over, and with
it all files under its id that come later. -/

namespace ScriptAtlas

open FileTree (Found)

/-! ### Files met -/

/-- A file that a path leads to. -/
structure Met where
  id : String
  bytes : ByteArray
  /-- The path by which the file was named; `none` if it was found in a directory. -/
  namedBy : Option RawText

namespace Met

/-- A file that a path names. -/
def named (path : RawText) (bytes : ByteArray) : Met := ⟨pathId path, bytes, some path⟩

/-- A file that was found below a directory. -/
def found (directory : RawText) (f : Found) : Met :=
  ⟨pathId (directory.join f.names), f.bytes, none⟩

/-- The source file, if the bytes are a text. -/
def source? (m : Met) : Option SourceFile := (FileTree.decode m.bytes).toOption.map (.of m.id)

theorem id_of_source? {m : Met} {file : SourceFile} (h : m.source? = some file) :
    file.id = m.id := by
  obtain ⟨content, -, rfl⟩ := Option.map_eq_some_iff.mp h
  rfl

end Met

/-- The source files below a directory, in the order of a walk. -/
def WalkOptions.filesBelow (o : WalkOptions) (entries : List FileEntry) : List Found :=
  (FileTree.walk o.ignores entries).filter fun f => o.wants (f.names.getLastD ⟨[]⟩)

theorem WalkOptions.filesBelow_file {o : WalkOptions} {name : RawText} (h : o.wants name = true)
    (bytes : ByteArray) : o.filesBelow [.file name bytes] = [⟨[name], bytes⟩] := by
  simp [filesBelow, FileTree.walk, FileTree.groups, FileTree.filesOf, h]

theorem WalkOptions.filesBelow_pair (o : WalkOptions) {a b : RawText} (h : a ≤ b)
    (x y : ByteArray) :
    o.filesBelow [.file a x, .file b y] =
      [⟨[a], x⟩, ⟨[b], y⟩].filter fun f => o.wants (f.names.getLastD ⟨[]⟩) := by
  simp [filesBelow, FileTree.walk, FileTree.groups, FileTree.filesOf, FileEntry.name,
    List.mergeSort, List.MergeSort.Internal.splitInTwo, h]

theorem WalkOptions.wants_iff_exists {o : WalkOptions} {name : RawText} :
    o.wants name = true ↔ ∃ ext ∈ o.extensions, name.extension? = some ↑ext := by
  unfold wants
  cases hext : name.extension? with
  | none => simp
  | some ext =>
    rw [Option.bind_some, RawText.any_text?_iff]
    simp

/-- The files that a path leads to. -/
def metBy (tree : FileTree) (o : WalkOptions) (path : RawText) : List Met :=
  match tree.find path with
  | .ok (.file bytes) => [.named path bytes]
  | .ok (.directory entries) => (o.filesBelow entries).map (.found path)
  | .error _ => []

/-- The files that some paths lead to. -/
def met (tree : FileTree) (o : WalkOptions) (paths : List RawText) : List Met :=
  paths.flatMap (metBy tree o)

theorem met_concat (tree : FileTree) (o : WalkOptions) (paths : List RawText) (path : RawText) :
    met tree o (paths ++ [path]) = met tree o paths ++ metBy tree o path := by
  simp [met]

/-! ### Collections -/

namespace Collection

/-- What a collection holds when the files `ms` have been met. -/
structure Holds (ms : List Met) (c : Collection) : Prop where
  mem_seen : ∀ id, id ∈ c.seen ↔ id ∈ ms.map (·.id)
  files_eq : c.files = (firstOfEach Met.id ms).filterMap Met.source?
  /-- A file that was named counts only as a text. -/
  isSome_source? : ∀ m ∈ firstOfEach Met.id ms, m.namedBy.isSome → m.source?.isSome

variable {ms : List Met} {m : Met} {c : Collection}

theorem holds_nil : Holds [] ⟨[], []⟩ := by
  constructor <;> simp [firstOfEach]

/-- A file under an id that is taken. -/
theorem Holds.again (h : Holds ms c) (hm : m.id ∈ ms.map (·.id)) : Holds (ms ++ [m]) c := by
  have hfirst : firstOfEach Met.id (ms ++ [m]) = firstOfEach Met.id ms := by
    rw [firstOfEach_concat, if_pos hm, List.append_nil]
  refine ⟨fun id => ?_, by rw [hfirst, h.files_eq], by rw [hfirst]; exact h.isSome_source?⟩
  rw [h.mem_seen, List.map_append, List.mem_append]
  constructor
  · exact Or.inl
  · rintro (hid | hid)
    · exact hid
    · obtain rfl : id = m.id := by simpa using hid
      exact hm

/-- A file under a new id, which is collected if it is a text. -/
theorem Holds.next (h : Holds ms c) (hm : m.id ∉ ms.map (·.id))
    (htext : m.namedBy.isSome → m.source?.isSome) :
    Holds (ms ++ [m]) ⟨c.files ++ m.source?.toList, m.id :: c.seen⟩ := by
  have hfirst : firstOfEach Met.id (ms ++ [m]) = firstOfEach Met.id ms ++ [m] := by
    rw [firstOfEach_concat, if_neg hm]
  refine ⟨fun id => ?_, ?_, ?_⟩
  · rw [List.mem_cons, h.mem_seen, List.map_append, List.mem_append, List.map_singleton,
      List.mem_singleton]
    exact or_comm
  · rw [hfirst, List.filterMap_append, ← h.files_eq]
    cases hs : m.source? <;> simp [hs]
  · rw [hfirst]
    intro n hn
    rcases List.mem_append.mp hn with hn | hn
    · exact h.isSome_source? n hn
    · rw [List.mem_singleton.mp hn]
      exact htext

theorem Holds.contains_seen (h : Holds ms c) (id : String) :
    c.seen.contains id = decide (id ∈ ms.map (·.id)) := by
  rw [Bool.eq_iff_iff, List.contains_iff_mem, decide_eq_true_eq, h.mem_seen]

/-! ### One path -/

theorem addFound_eq (directory : RawText) (c : Collection) (f : Found) :
    c.addFound directory f =
      if c.seen.contains (Met.found directory f).id then c
      else ⟨c.files ++ (Met.found directory f).source?.toList,
        (Met.found directory f).id :: c.seen⟩ := by
  unfold Collection.addFound Met.source?
  cases hdecode : FileTree.decode f.bytes <;> simp [Met.found, hdecode, Except.toOption]

theorem Holds.addFound (h : Holds ms c) (directory : RawText) (f : Found) :
    Holds (ms ++ [.found directory f]) (c.addFound directory f) := by
  rw [addFound_eq, h.contains_seen]
  by_cases hid : (Met.found directory f).id ∈ ms.map (·.id)
  · rw [if_pos (by simpa using hid)]
    exact h.again hid
  · rw [if_neg (by simpa using hid)]
    exact h.next hid (by simp [Met.found])

theorem Holds.foldl_addFound (h : Holds ms c) (directory : RawText) (fs : List Found) :
    Holds (ms ++ fs.map (.found directory)) (fs.foldl (Collection.addFound directory) c) := by
  induction fs generalizing ms c with
  | nil => simpa using h
  | cons f fs ih => simpa using ih (h.addFound directory f)

variable {path : RawText} {bytes : ByteArray}

theorem Holds.addNamed_eq_error (h : Holds ms c) (hid : pathId path ∉ ms.map (·.id))
    {e : FileError} (hdecode : FileTree.decode bytes = .error e) :
    c.addNamed path bytes = .error (.unreadable path e) := by
  rw [← h.mem_seen] at hid
  simp [Collection.addNamed, hid, hdecode, Except.mapError, bind, Except.bind]

theorem Holds.exists_addNamed (h : Holds ms c)
    (hpath : pathId path ∈ ms.map (·.id) ∨ ∃ s, FileTree.decode bytes = .ok s) :
    ∃ c', c.addNamed path bytes = .ok c' ∧ Holds (ms ++ [.named path bytes]) c' := by
  by_cases hid : pathId path ∈ ms.map (·.id)
  · refine ⟨c, ?_, h.again hid⟩
    rw [← h.mem_seen] at hid
    simp [Collection.addNamed, hid, pure, Except.pure]
  · obtain ⟨s, hs⟩ := hpath.resolve_left hid
    have hsource : (Met.named path bytes).source? = some (.of (pathId path) s) := by
      simp [Met.source?, Met.named, hs, Except.toOption]
    refine ⟨_, ?_, h.next hid (by simp [hsource])⟩
    rw [← h.mem_seen] at hid
    rw [hsource]
    simp [Collection.addNamed, hid, hs, Met.named, Except.mapError, bind, Except.bind, pure,
      Except.pure]

end Collection

/-- Why a path cannot be read behind others: it leads nowhere, or it names a file that is no text
and whose id is not taken. -/
def problem? (tree : FileTree) (o : WalkOptions) (before : List RawText) (path : RawText) :
    Option FileError :=
  match tree.find path with
  | .error e => some e
  | .ok (.directory _) => none
  | .ok (.file bytes) =>
    if pathId path ∈ (met tree o before).map (·.id) then none
    else
      match FileTree.decode bytes with
      | .ok _ => none
      | .error e => some e

variable {tree : FileTree} {o : WalkOptions} {before paths : List RawText} {path : RawText}

theorem problem?_eq_some_iff {e : FileError} :
    problem? tree o before path = some e ↔
      tree.find path = .error e ∨
        ∃ bytes, tree.find path = .ok (.file bytes) ∧
          pathId path ∉ (met tree o before).map (·.id) ∧
            FileTree.decode bytes = .error e := by
  unfold problem?
  cases tree.find path with
  | error e' => simp
  | ok target =>
    cases target with
    | directory entries => simp
    | file bytes =>
      by_cases hid : pathId path ∈ (met tree o before).map (·.id)
      · simp [hid]
      · cases hdecode : FileTree.decode bytes <;> simp [hid, hdecode]

theorem problem?_eq_none_iff :
    problem? tree o before path = none ↔
      (∃ entries, tree.find path = .ok (.directory entries)) ∨
        ∃ bytes, tree.find path = .ok (.file bytes) ∧
          (pathId path ∈ (met tree o before).map (·.id) ∨
            ∃ s, FileTree.decode bytes = .ok s) := by
  unfold problem?
  cases tree.find path with
  | error e' => simp
  | ok target =>
    cases target with
    | directory entries => simp
    | file bytes =>
      by_cases hid : pathId path ∈ (met tree o before).map (·.id)
      · simp [hid]
      · cases hdecode : FileTree.decode bytes <;> simp [hid, hdecode]

namespace Collection

variable {c : Collection}

theorem addPath_of_directory {entries : List FileEntry}
    (hfind : tree.find path = .ok (.directory entries)) :
    c.addPath tree o path = .ok ((o.filesBelow entries).foldl (addFound path) c) := by
  unfold addPath
  rw [hfind]
  rfl

theorem Holds.addPath_eq_error (h : Holds (met tree o before) c) {e : FileError}
    (he : problem? tree o before path = some e) :
    c.addPath tree o path = .error (.unreadable path e) := by
  unfold addPath
  rcases problem?_eq_some_iff.mp he with hfind | ⟨bytes, hfind, hid, hdecode⟩
  · rw [hfind]
    rfl
  · rw [hfind]
    exact h.addNamed_eq_error hid hdecode

theorem Holds.exists_addPath (h : Holds (met tree o before) c)
    (hnone : problem? tree o before path = none) :
    ∃ c', c.addPath tree o path = .ok c' ∧ Holds (met tree o (before ++ [path])) c' := by
  rw [met_concat, metBy]
  rcases problem?_eq_none_iff.mp hnone with ⟨entries, hfind⟩ | ⟨bytes, hfind, hpath⟩
  · rw [addPath_of_directory hfind, hfind]
    exact ⟨_, rfl, h.foldl_addFound path (o.filesBelow entries)⟩
  · unfold addPath
    rw [hfind]
    exact h.exists_addNamed hpath

end Collection

/-! ### All paths -/

/-- No path has a problem behind those before it. -/
def Readable (tree : FileTree) (o : WalkOptions) (paths : List RawText) : Prop :=
  ∀ before path, before ++ [path] <+: paths → problem? tree o before path = none

theorem readable_nil (tree : FileTree) (o : WalkOptions) : Readable tree o [] := by
  intro before path h
  simp at h

theorem readable_concat_iff :
    Readable tree o (paths ++ [path]) ↔
      Readable tree o paths ∧ problem? tree o paths path = none := by
  constructor
  · intro h
    refine ⟨fun before p hp => h before p (hp.trans (List.prefix_append _ _)), ?_⟩
    exact h paths path List.prefix_rfl
  · rintro ⟨h, hpath⟩ before p hp
    rcases List.prefix_concat_iff.mp hp with heq | hp
    · obtain ⟨rfl, hlast⟩ := List.append_inj' heq rfl
      obtain rfl : p = path := by simpa using hlast
      exact hpath
    · exact h before p hp

/-- Either all paths can be read, or there is a first one that has a problem. -/
theorem readable_or_exists_problem (tree : FileTree) (o : WalkOptions) (paths : List RawText) :
    Readable tree o paths ∨
      ∃ before path after e, paths = before ++ path :: after ∧ Readable tree o before ∧
        problem? tree o before path = some e := by
  induction paths using List.reverseRecOn with
  | nil => exact Or.inl (readable_nil tree o)
  | append_singleton paths last ih =>
    rcases ih with h | ⟨before, path, after, e, rfl, h, he⟩
    · cases hlast : problem? tree o paths last with
      | none => exact Or.inl (readable_concat_iff.mpr ⟨h, hlast⟩)
      | some e => exact Or.inr ⟨paths, last, [], e, rfl, h, hlast⟩
    · exact Or.inr ⟨before, path, after ++ [last], e, by simp, h, he⟩

theorem Readable.exists_holds (h : Readable tree o paths) :
    ∃ c, paths.foldlM (Collection.addPath tree o) ⟨[], []⟩ = .ok c ∧
      Collection.Holds (met tree o paths) c := by
  induction paths using List.reverseRecOn with
  | nil => exact ⟨_, rfl, Collection.holds_nil⟩
  | append_singleton paths path ih =>
    obtain ⟨hpaths, hpath⟩ := readable_concat_iff.mp h
    obtain ⟨c, hc, hholds⟩ := ih hpaths
    obtain ⟨c', hc', hholds'⟩ := hholds.exists_addPath hpath
    refine ⟨c', ?_, hholds'⟩
    rw [List.foldlM_append, hc]
    simp [bind, Except.bind, hc', pure, Except.pure]

/-- The source files among some files: the first one under each id, if it is a text. -/
def sources (ms : List Met) : List SourceFile := (firstOfEach Met.id ms).filterMap Met.source?

theorem Readable.collect_eq (h : Readable tree o paths) :
    collect tree paths o =
      if sources (met tree o paths) = [] then
        .error (.nothingFound (", ".intercalate (paths.map (·.shown))))
      else .ok (sources (met tree o paths)) := by
  obtain ⟨c, hc, hholds⟩ := h.exists_holds
  have hfiles : c.files = sources (met tree o paths) := hholds.files_eq
  unfold collect
  rw [hc]
  by_cases hnil : sources (met tree o paths) = []
  · simp [bind, Except.bind, hfiles, hnil, throw, throwThe, MonadExceptOf.throw]
  · simp [bind, Except.bind, hfiles, hnil, pure, Except.pure]

theorem Readable.collect_eq_error (h : Readable tree o before) {e : FileError}
    (he : problem? tree o before path = some e) (after : List RawText) :
    collect tree (before ++ path :: after) o = .error (.unreadable path e) := by
  obtain ⟨c, hc, hholds⟩ := h.exists_holds
  unfold collect
  rw [List.foldlM_append, hc]
  simp [bind, Except.bind, hholds.addPath_eq_error he]

theorem readable_of_collect_eq_ok {files : List SourceFile}
    (h : collect tree paths o = .ok files) :
    Readable tree o paths ∧ files = sources (met tree o paths) := by
  rcases readable_or_exists_problem tree o paths with hread | ⟨before, path, after, e, rfl, hb, he⟩
  · refine ⟨hread, ?_⟩
    rw [hread.collect_eq] at h
    split at h
    · cases h
    · cases h
      rfl
  · rw [hb.collect_eq_error he] at h
    cases h

theorem Readable.of_collect_ne_unreadable
    (h : ∀ p e, collect tree paths o ≠ .error (.unreadable p e)) : Readable tree o paths := by
  rcases readable_or_exists_problem tree o paths with hread | ⟨before, path, after, e, rfl, hb, he⟩
  · exact hread
  · exact absurd (hb.collect_eq_error he after) (h path e)

/-- A path that cannot be read stops the collection, whatever comes behind it. -/
theorem collect_append_of_unreadable {e : FileError}
    (h : collect tree paths o = .error (.unreadable path e)) (after : List RawText) :
    collect tree (paths ++ after) o = .error (.unreadable path e) := by
  rcases readable_or_exists_problem tree o paths with hread | ⟨before, p, rest, e', rfl, hb, he⟩
  · rw [hread.collect_eq] at h
    split at h <;> cases h
  · rw [hb.collect_eq_error he] at h
    rw [List.append_assoc, List.cons_append, hb.collect_eq_error he, h]

/-! ### Named files -/

variable {id : String} {ms : List Met}

/-- Under an id there is a source file if the first file met under it is a text. -/
theorem exists_mem_sources_iff :
    (∃ f ∈ sources ms, f.id = id) ↔ ∃ m, ms.find? (·.id = id) = some m ∧ m.source?.isSome := by
  constructor
  · rintro ⟨f, hf, rfl⟩
    obtain ⟨m, hm, hsource⟩ := List.mem_filterMap.mp hf
    rw [Met.id_of_source? hsource]
    exact ⟨m, mem_firstOfEach_iff.mp hm, by simp [hsource]⟩
  · rintro ⟨m, hm, hsome⟩
    obtain ⟨f, hf⟩ := Option.isSome_iff_exists.mp hsome
    have hid : m.id = id := by simpa using List.find?_some hm
    refine ⟨f, List.mem_filterMap.mpr ⟨m, mem_firstOfEach_iff.mpr (hid ▸ hm), hf⟩, ?_⟩
    rw [Met.id_of_source? hf, hid]

/-- Where all paths can be read, a named file that is the first one under its id is a text. -/
theorem Readable.isSome_source? (h : Readable tree o paths) {m : Met}
    (hm : (met tree o paths).find? (·.id = id) = some m) (hnamed : m.namedBy.isSome) :
    m.source?.isSome := by
  obtain ⟨c, -, hholds⟩ := h.exists_holds
  have hid : m.id = id := by simpa using List.find?_some hm
  exact hholds.isSome_source? m (mem_firstOfEach_iff.mpr (hid ▸ hm)) hnamed

/-- Is the first file under the id, of those that the paths lead to, no text and found in a
directory? -/
def PassedOver (tree : FileTree) (o : WalkOptions) (paths : List RawText) (id : String) : Prop :=
  ∃ m, (met tree o paths).find? (·.id = id) = some m ∧ m.namedBy = none ∧ m.source? = none

theorem met_of_file {bytes : ByteArray} (hfile : tree.find path = .ok (.file bytes))
    (after : List RawText) :
    met tree o (before ++ path :: after) =
      met tree o before ++ .named path bytes :: met tree o after := by
  simp [met, metBy, hfile]

theorem Readable.exists_source_iff {bytes : ByteArray} {after : List RawText}
    (h : Readable tree o (before ++ path :: after))
    (hfile : tree.find path = .ok (.file bytes)) :
    (∃ f ∈ sources (met tree o (before ++ path :: after)), f.id = pathId path) ↔
      ¬ PassedOver tree o before (pathId path) := by
  have hbefore : Readable tree o before := fun b p hp => h b p (hp.trans (List.prefix_append _ _))
  have hfind : (met tree o (before ++ path :: after)).find? (·.id = pathId path) =
      ((met tree o before).find? (·.id = pathId path)).or (some (.named path bytes)) := by
    rw [met_of_file hfile, List.find?_append, List.find?_cons_of_pos (by simp [Met.named])]
  rw [exists_mem_sources_iff, hfind, PassedOver]
  cases hfirst : (met tree o before).find? (·.id = pathId path) with
  | none =>
    -- The named file is the first one under its id.
    rw [hfirst, Option.none_or] at hfind
    have htext := h.isSome_source? hfind rfl
    simpa using htext
  | some m =>
    constructor
    · rintro ⟨m', hm', hsome⟩ ⟨m'', hm'', -, hnone⟩
      cases hm'
      cases hm''
      simp [hnone] at hsome
    · intro hnot
      refine ⟨m, rfl, ?_⟩
      by_cases hnamed : m.namedBy.isSome
      · exact hbefore.isSome_source? hfirst hnamed
      · by_contra hsource
        exact hnot ⟨m, rfl, by simpa using hnamed, by simpa using hsource⟩

/-- **Named files are collected** unless a directory before them holds a file under their id that is
no text: such a file is passed over, and the named one with it. A named file that is no text and
whose id is not taken stops the collection, unless a path before it has stopped it. -/
theorem named_file_collected_iff {bytes : ByteArray} {after : List RawText}
    (hfile : tree.find path = .ok (.file bytes)) :
    (∀ files, collect tree (before ++ path :: after) o = .ok files →
      ((∃ f ∈ files, f.id = pathId path) ↔
        ¬ PassedOver tree o before (pathId path))) ∧
    (FileTree.decode bytes = .error .notText →
      (∀ m ∈ met tree o before, m.id ≠ pathId path) →
      (∀ p e, collect tree before o = .error (.unreadable p e) →
        collect tree (before ++ path :: after) o = .error (.unreadable p e)) ∧
      ((∀ p e, collect tree before o ≠ .error (.unreadable p e)) →
        collect tree (before ++ path :: after) o = .error (.unreadable path .notText))) := by
  constructor
  · intro files hfiles
    obtain ⟨hread, rfl⟩ := readable_of_collect_eq_ok hfiles
    exact hread.exists_source_iff hfile
  · intro hbytes hnew
    refine ⟨fun p e hstop => collect_append_of_unreadable hstop _, fun hbefore => ?_⟩
    have hid : pathId path ∉ (met tree o before).map (·.id) := by
      intro hmem
      obtain ⟨m, hm, hmid⟩ := List.mem_map.mp hmem
      exact hnew m hm hmid
    have hproblem := problem?_eq_some_iff.mpr (Or.inr ⟨bytes, hfile, hid, hbytes⟩)
    exact (Readable.of_collect_ne_unreadable hbefore).collect_eq_error hproblem after

/-- A file that is no text, named before its directory. -/
theorem named_file_collected_iff_first :
    let tree : FileTree :=
      ⟨[.directory "src" [.file "a.ts" "a();".toUTF8, .file "b.ts" ⟨#[0xff]⟩]], []⟩
    tree.find "src/b.ts" = .ok (.file ⟨#[0xff]⟩) ∧
      collect tree ["src/b.ts", "src"] ⟨["ts"], []⟩ =
        .error (.unreadable "src/b.ts" .notText) := by
  intro tree
  have hfile : tree.find "src/b.ts" = .ok (.file ⟨#[0xff]⟩) := rfl
  have hbefore : ∀ p e, collect tree [] ⟨["ts"], []⟩ ≠ .error (.unreadable p e) := by
    intro p e h
    cases h
  have hall := @named_file_collected_iff tree ⟨["ts"], []⟩ [] "src/b.ts" ⟨#[0xff]⟩ ["src"] hfile
  exact ⟨hfile, (hall.2 rfl (by simp [met])).2 hbefore⟩

/-- Named behind its directory, the same file is neither collected nor reported. -/
theorem named_file_passed_over :
    let tree : FileTree :=
      ⟨[.directory "src" [.file "a.ts" "a();".toUTF8, .file "b.ts" ⟨#[0xff]⟩]], []⟩
    tree.find "src/b.ts" = .ok (.file ⟨#[0xff]⟩) ∧
      FileTree.decode ⟨#[0xff]⟩ = .error .notText ∧
      collect tree ["src", "src/b.ts"] ⟨["ts"], []⟩ = .ok [.of "src/a.ts" "a();"] ∧
      ∀ f ∈ [SourceFile.of "src/a.ts" "a();"], f.id ≠ pathId "src/b.ts" := by
  intro tree
  have hfile : tree.find "src/b.ts" = .ok (.file ⟨#[0xff]⟩) := rfl
  have hdecode : FileTree.decode ⟨#[0xff]⟩ = .error .notText := rfl
  refine ⟨hfile, hdecode, ?_, by decide +kernel⟩
  have hsrc : Collection.addPath tree ⟨["ts"], []⟩ ⟨[], []⟩ "src" =
      .ok ⟨[.of "src/a.ts" "a();"], ["src/b.ts", "src/a.ts"]⟩ := by
    have hfind : tree.find "src" =
        .ok (.directory [.file "a.ts" "a();".toUTF8, .file "b.ts" ⟨#[0xff]⟩]) := rfl
    have hsorted : RawText.ofString "a.ts" ≤ "b.ts" := by decide +kernel
    rw [Collection.addPath_of_directory hfind, WalkOptions.filesBelow_pair _ hsorted]
    rfl
  unfold collect
  rw [List.foldlM_cons, hsrc]
  rfl

end ScriptAtlas
