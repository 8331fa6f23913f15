import ScriptAtlas.Proofs.LastPart
import ScriptAtlas.Proofs.NamedPlaces
import ScriptAtlas.Proofs.SourceCollection

/-! # Which files are collected, and in what order

A path reaches the file that it names, or the files below the directory that it names which have a
wanted extension and stand in no ignored directory. Each of them has a place in the file system, and
gets an id from the path (`Reaches`). However paths are spelled, and whether or not they overlap, a
collection holds the texts among the files that some path reaches, once under each id that they get
(`mem_firstOfEach_reached`). Files that an earlier path reaches come first, and those that one path
reaches as a walk meets them (`pairwise_firstOfEach`). A file gets two ids only from paths that
start in different ways. -/

namespace ScriptAtlas

open FileTree (Found At WellNamed IsEntryName LeadsTo)

/-! ### Wanted files -/

/-- The name ends in one of the extensions, behind a dot that does not open it. -/
def HasExtension (extensions : List String) (name : RawText) : Prop :=
  ∃ (stem : List UInt8) (ext : String),
    name.bytes = stem ++ RawText.dot :: (RawText.ofString ext).bytes ∧ stem ≠ [] ∧
      '.' ∉ ext.toList ∧ ext ∈ extensions

theorem WalkOptions.wants_iff {o : WalkOptions} {name : RawText} :
    o.wants name = true ↔ HasExtension o.extensions name := by
  have hext (ext : String) : name.extension? = some ↑ext ↔
      '.' ∉ ext.toList ∧ ∃ stem, stem ≠ [] ∧
        name.bytes = stem ++ RawText.dot :: (RawText.ofString ext).bytes := by
    have hdot : RawText.dot ∉ (RawText.ofString ext).bytes ↔ '.' ∉ ext.toList := by
      rw [RawText.bytes_ofString]
      exact not_congr (RawText.asciiByte_mem_encode_iff (c := '.') (by decide))
    rw [← hdot, ← Text.behindLast?_eq_some_iff, RawText.extension?, Option.map_eq_some_iff]
    constructor
    · rintro ⟨bytes, hbytes, hname⟩
      rwa [← hname]
    · exact fun h => ⟨_, h, rfl⟩
  rw [wants_iff_exists]
  simp only [hext]
  constructor
  · rintro ⟨ext, hmem, hdot, stem, hstem, hname⟩
    exact ⟨stem, ext, hname, hstem, hdot, hmem⟩
  · rintro ⟨stem, ext, hname, hstem, hdot, hmem⟩
    exact ⟨ext, hmem, hdot, stem, hstem, hname⟩

/-- No directory of these names is passed over. -/
def NoneIgnored (o : WalkOptions) (names : List RawText) : Prop :=
  ∀ name ∈ names, ∀ ignored ∈ o.ignoredDirectories, name ≠ ↑ignored

theorem noneIgnored_iff {o : WalkOptions} {names : List RawText} :
    (∀ name ∈ names, o.ignores name = false) ↔ NoneIgnored o names := by
  refine forall₂_congr fun name _ => ?_
  rw [← Bool.not_eq_true, WalkOptions.ignores, RawText.any_text?_iff]
  simp

theorem mem_filesBelow_iff {o : WalkOptions} {entries : List FileEntry} {f : Found} :
    f ∈ o.filesBelow entries ↔
      At entries f.names (.file f.bytes) ∧
        ∃ between name, f.names = between ++ [name] ∧ HasExtension o.extensions name ∧
          NoneIgnored o between := by
  rw [WalkOptions.filesBelow, List.mem_filter, FileTree.mem_walk_iff, noneIgnored_iff,
    WalkOptions.wants_iff]
  constructor
  · rintro ⟨⟨hat, hways⟩, hext⟩
    obtain ⟨between, name, hnames⟩ := (List.eq_nil_or_concat' f.names).resolve_left hat.ne_nil
    rw [hnames] at hways hext
    exact ⟨hat, between, name, hnames, by simpa using hext, by simpa using hways⟩
  · rintro ⟨hat, between, name, hnames, hext, hways⟩
    rw [hnames, List.dropLast_concat]
    exact ⟨⟨hnames ▸ hat, hways⟩, by simpa using hext⟩

/-! ### Files reached -/

/-- The file at the place lies below the directory that the path names, has a wanted extension and
stands in no directory below it that is ignored. Its id is that of its path from there on. -/
structure LiesBelow (tree : FileTree) (o : WalkOptions) (path : RawText) (place : List RawText)
    (id : String) : Prop where
  isDirectory : tree.isDirectory path = true
  exists_between : ∃ between name, place = tree.locate path ++ (between ++ [name]) ∧
    HasExtension o.extensions name ∧ NoneIgnored o between ∧
    id = pathId (path.join (between ++ [name]))

/-- The path names the file at the place, or a directory that the file lies below, and so gives it
the id. -/
def Reaches (tree : FileTree) (o : WalkOptions) (path : RawText) (place : List RawText)
    (id : String) : Prop :=
  (tree.isFile path = true ∧ tree.locate path = place ∧ pathId path = id) ∨
    LiesBelow tree o path place id

theorem not_liesBelow {tree : FileTree} {o : WalkOptions} {path : RawText}
    (h : tree.isDirectory path = false) (place : List RawText) (id : String) :
    ¬ LiesBelow tree o path place id := by
  intro hbelow
  rw [hbelow.isDirectory] at h
  cases h

/-- A file that a path leads to. -/
@[ext]
structure Sighting where
  place : List RawText
  id : String
  bytes : ByteArray

/-- The file with these bytes, seen at a path. -/
def Sighting.at (tree : FileTree) (path : RawText) (bytes : ByteArray) : Sighting :=
  ⟨tree.locate path, pathId path, bytes⟩

/-- The files that a path leads to. -/
def reached (tree : FileTree) (o : WalkOptions) (path : RawText) : List Sighting :=
  match tree.find path with
  | .ok (.file bytes) => [.at tree path bytes]
  | .ok (.directory entries) =>
    (o.filesBelow entries).map fun f => .at tree (path.join f.names) f.bytes
  | .error _ => []

variable {tree : FileTree} {o : WalkOptions} {path : RawText} {paths : List RawText}
  {s s' : Sighting}

theorem map_metBy (tree : FileTree) (o : WalkOptions) (path : RawText) :
    (metBy tree o path).map (fun m => (m.id, m.bytes)) =
      (reached tree o path).map fun s => (s.id, s.bytes) := by
  unfold metBy reached
  cases tree.find path with
  | error e => rfl
  | ok target =>
    cases target with
    | file bytes => rfl
    | directory entries =>
      rw [List.map_map, List.map_map]
      rfl

section WellNamed

variable (ht : WellNamed tree.root)
include ht

theorem isEntryName_of_mem_filesBelow {entries : List FileEntry} {f : Found}
    (hfind : tree.find path = .ok (.directory entries)) (hf : f ∈ o.filesBelow entries) :
    ∀ name ∈ f.names, IsEntryName name := fun name hname =>
  ht.isEntryName_of_at ((FileTree.find_eq_ok ht hfind).isAt.append (mem_filesBelow_iff.mp hf).1)
    name (List.mem_append_right _ hname)

/-- Every file that a path leads to is seen at a path of its own. -/
theorem exists_path_of_mem_reached (h : s ∈ reached tree o path) :
    ∃ p, LeadsTo tree p (.file s.bytes) ∧ tree.locate p = s.place ∧ pathId p = s.id := by
  unfold reached at h
  cases hfind : tree.find path with
  | error e => simp [hfind] at h
  | ok target =>
    have hleads := FileTree.find_eq_ok ht hfind
    rw [hfind] at h
    cases target with
    | file bytes =>
      obtain rfl := List.mem_singleton.mp h
      exact ⟨path, hleads, rfl, rfl⟩
    | directory entries =>
      obtain ⟨f, hf, rfl⟩ := List.mem_map.mp h
      exact ⟨_, hleads.join ht (mem_filesBelow_iff.mp hf).1, rfl, rfl⟩

theorem liesBelow_iff_of_directory {entries : List FileEntry}
    (hfind : tree.find path = .ok (.directory entries)) :
    At tree.root s.place (.file s.bytes) ∧ LiesBelow tree o path s.place s.id ↔
      ∃ f ∈ o.filesBelow entries, .at tree (path.join f.names) f.bytes = s := by
  have hleads := FileTree.find_eq_ok ht hfind
  constructor
  · rintro ⟨hat, hbelow⟩
    obtain ⟨between, name, hplace, hext, hways, hid⟩ := hbelow.exists_between
    rw [hplace] at hat
    have hinner : At entries (between ++ [name]) (.file s.bytes) :=
      (FileTree.at_append_iff ht.distinctNames hleads.isAt).mp hat
    have hf : (⟨between ++ [name], s.bytes⟩ : Found) ∈ o.filesBelow entries :=
      mem_filesBelow_iff.mpr ⟨hinner, between, name, rfl, hext, hways⟩
    refine ⟨_, hf, ?_⟩
    rw [Sighting.at, FileTree.locate_join hleads.ne_nil (isEntryName_of_mem_filesBelow ht hfind hf),
      ← hplace, ← hid]
  · rintro ⟨f, hf, rfl⟩
    obtain ⟨hat, between, name, hnames, hext, hways⟩ := mem_filesBelow_iff.mp hf
    refine ⟨(hleads.join ht hat).isAt, by simp [FileTree.isDirectory, hfind], between, name, ?_,
      hext, hways, ?_⟩
    · rw [← hnames]
      exact FileTree.locate_join hleads.ne_nil (isEntryName_of_mem_filesBelow ht hfind hf) tree
    · rw [← hnames]
      rfl

/-- A path leads to the files that it reaches. -/
theorem mem_reached :
    s ∈ reached tree o path ↔
      At tree.root s.place (.file s.bytes) ∧ Reaches tree o path s.place s.id := by
  unfold reached Reaches
  cases hfind : tree.find path with
  | error e =>
    have hdirectory : tree.isDirectory path = false := by simp [FileTree.isDirectory, hfind]
    simp [FileTree.isFile, hfind, not_liesBelow hdirectory]
  | ok target =>
    have hleads := FileTree.find_eq_ok ht hfind
    cases target with
    | file bytes =>
      have hdirectory : tree.isDirectory path = false := by simp [FileTree.isDirectory, hfind]
      have hfile : tree.isFile path = true := by simp [FileTree.isFile, hfind]
      simp only [List.mem_singleton, hfile, not_liesBelow hdirectory, or_false, true_and]
      constructor
      · rintro rfl
        exact ⟨hleads.isAt, rfl, rfl⟩
      · obtain ⟨place, id, bytes'⟩ := s
        rintro ⟨hat, rfl, rfl⟩
        cases hat.eq ht.distinctNames hleads.isAt
        rfl
    | directory entries =>
      have hfile : tree.isFile path = false := by simp [FileTree.isFile, hfind]
      simp only [List.mem_map, hfile, Bool.false_eq_true, false_and, false_or]
      exact (liesBelow_iff_of_directory ht hfind).symm

theorem pairwise_reached : (reached tree o path).Pairwise fun s s' => s.place < s'.place := by
  unfold reached
  cases hfind : tree.find path with
  | error e => exact .nil
  | ok target =>
    have hleads := FileTree.find_eq_ok ht hfind
    cases target with
    | file bytes => exact List.pairwise_singleton _ _
    | directory entries =>
      have hwalk := (FileTree.pairwise_walk o.ignores
        (hleads.isAt.distinctNames ht.distinctNames)).filter
          fun f => o.wants (f.names.getLastD ⟨[]⟩)
      refine List.pairwise_map.mpr (hwalk.imp_of_mem fun {f g} hf hg hlt => ?_)
      have hplace {f : Found} (hf : f ∈ o.filesBelow entries) :
          tree.locate (path.join f.names) = tree.locate path ++ f.names :=
        FileTree.locate_join hleads.ne_nil (isEntryName_of_mem_filesBelow ht hfind hf) tree
      rw [Sighting.at, Sighting.at, hplace hf, hplace hg]
      exact List.append_left_lt hlt

theorem mem_flatMap_reached :
    s ∈ paths.flatMap (reached tree o) ↔
      At tree.root s.place (.file s.bytes) ∧ ∃ path ∈ paths, Reaches tree o path s.place s.id := by
  simp only [List.mem_flatMap, mem_reached ht]
  constructor
  · rintro ⟨path, hpath, hat, hreaches⟩
    exact ⟨hat, path, hpath, hreaches⟩
  · rintro ⟨hat, path, hpath, hreaches⟩
    exact ⟨path, hpath, hat, hreaches⟩

theorem exists_path_of_mem_flatMap (h : s ∈ paths.flatMap (reached tree o)) :
    ∃ p, LeadsTo tree p (.file s.bytes) ∧ tree.locate p = s.place ∧ pathId p = s.id := by
  obtain ⟨path, -, hs⟩ := List.mem_flatMap.mp h
  exact exists_path_of_mem_reached ht hs

/-- One id is given to one file only. -/
theorem eq_of_id_eq (h : s ∈ paths.flatMap (reached tree o))
    (h' : s' ∈ paths.flatMap (reached tree o)) (hid : s.id = s'.id) : s = s' := by
  obtain ⟨p, hp, hlocate, hpathId⟩ := exists_path_of_mem_flatMap ht h
  obtain ⟨p', hp', hlocate', hpathId'⟩ := exists_path_of_mem_flatMap ht h'
  have hsame : tree.locate p = tree.locate p' :=
    FileTree.locate_eq_of_pathId_eq ht hp hp' (by rw [hpathId, hpathId', hid])
  have hbytes : s.bytes = s'.bytes :=
    FileTree.Target.file.inj (hp.isAt.eq ht.distinctNames (hsame ▸ hp'.isAt))
  exact Sighting.ext (by rw [← hlocate, ← hlocate', hsame]) hid hbytes

theorem mem_firstOfEach_reached :
    s ∈ firstOfEach Sighting.id (paths.flatMap (reached tree o)) ↔
      s ∈ paths.flatMap (reached tree o) := by
  refine ⟨mem_of_mem_firstOfEach, fun hs => ?_⟩
  obtain ⟨s', hs', hid⟩ :=
    List.mem_map.mp (mem_map_firstOfEach.mpr (List.mem_map_of_mem (f := Sighting.id) hs))
  rwa [← eq_of_id_eq ht (mem_of_mem_firstOfEach hs') hs hid]

/-- The id that a file gets leads to its place. -/
theorem land_id (h : s ∈ paths.flatMap (reached tree o)) :
    Path.normalize s.id = s.id ∧ tree.land s.id = FileTree.shownAll s.place := by
  obtain ⟨p, hp, hlocate, hpathId⟩ := exists_path_of_mem_flatMap ht h
  rw [← hlocate, ← hpathId]
  exact ⟨Path.normalize_normalize _, (FileTree.shownAll_locate ht hp.backslash_not_mem).symm⟩

/-- Of the ids that start from one directory and do not climb above it, a place gets only one. -/
theorem eq_of_place_eq (h : s ∈ paths.flatMap (reached tree o))
    (h' : s' ∈ paths.flatMap (reached tree o)) (hplace : s.place = s'.place)
    (hstart : Path.isAbsolute s.id.toList = Path.isAbsolute s'.id.toList)
    (hclimbs : ¬ Path.Climbs s.id) (hclimbs' : ¬ Path.Climbs s'.id) : s = s' := by
  obtain ⟨hid, hland⟩ := land_id ht h
  obtain ⟨hid', hland'⟩ := land_id ht h'
  refine eq_of_id_eq ht h h' ?_
  exact FileTree.eq_of_land_eq hid hid' hstart hclimbs hclimbs' (by rw [hland, hland', hplace])

end WellNamed

/-! ### Their order -/

/-- The first of the paths that reaches the file under the id is the one at position `i`. -/
structure FirstReached (tree : FileTree) (o : WalkOptions) (paths : List RawText) (i : Nat)
    (place : List RawText) (id : String) : Prop where
  reaches : ∃ path, paths[i]? = some path ∧ Reaches tree o path place id
  not_before : ∀ path ∈ paths.take i, ¬ Reaches tree o path place id

/-- An earlier path reaches the first file, or the same path does and the names on the way to it
come first in lexicographic order. -/
def ReachedBefore (tree : FileTree) (o : WalkOptions) (paths : List RawText)
    (place : List RawText) (id : String) (place' : List RawText) (id' : String) : Prop :=
  ∃ i j, FirstReached tree o paths i place id ∧ FirstReached tree o paths j place' id' ∧
    (i < j ∨ i = j ∧ place < place')

variable {place place' : List RawText} {id id' : String} {i : Nat}

theorem FirstReached.lt_length (h : FirstReached tree o paths i place id) : i < paths.length := by
  obtain ⟨path, hpath, -⟩ := h.reaches
  exact (List.getElem?_eq_some_iff.mp hpath).1

theorem FirstReached.concat (h : FirstReached tree o paths i place id) (path : RawText) :
    FirstReached tree o (paths ++ [path]) i place id where
  reaches := by rw [List.getElem?_append_left h.lt_length]; exact h.reaches
  not_before := by rw [List.take_append_of_le_length h.lt_length.le]; exact h.not_before

theorem firstReached_last (h : Reaches tree o path place id)
    (hnot : ∀ p ∈ paths, ¬ Reaches tree o p place id) :
    FirstReached tree o (paths ++ [path]) paths.length place id where
  reaches := ⟨path, by simp, h⟩
  not_before := by simpa using hnot

theorem exists_firstReached (h : ∃ path ∈ paths, Reaches tree o path place id) :
    ∃ i, FirstReached tree o paths i place id := by
  induction paths using List.reverseRecOn with
  | nil => simp at h
  | append_singleton paths last ih =>
    by_cases hbefore : ∃ path ∈ paths, Reaches tree o path place id
    · obtain ⟨i, hi⟩ := ih hbefore
      exact ⟨i, hi.concat last⟩
    · obtain ⟨path, hpath, hreaches⟩ := h
      rcases List.mem_append.mp hpath with hpath | hpath
      · exact absurd ⟨path, hpath, hreaches⟩ hbefore
      · rw [List.mem_singleton.mp hpath] at hreaches
        exact ⟨_, firstReached_last hreaches fun p hp hp' => hbefore ⟨p, hp, hp'⟩⟩

theorem ReachedBefore.concat (h : ReachedBefore tree o paths place id place' id')
    (path : RawText) : ReachedBefore tree o (paths ++ [path]) place id place' id' := by
  obtain ⟨i, j, hi, hj, hlt⟩ := h
  exact ⟨i, j, hi.concat path, hj.concat path, hlt⟩

theorem pairwise_firstOfEach (ht : WellNamed tree.root) (paths : List RawText) :
    (firstOfEach Sighting.id (paths.flatMap (reached tree o))).Pairwise fun s s' =>
      ReachedBefore tree o paths s.place s.id s'.place s'.id := by
  induction paths using List.reverseRecOn with
  | nil => exact .nil
  | append_singleton paths path ih =>
    rw [List.flatMap_append, List.flatMap_singleton, firstOfEach_append]
    -- Of the files that the last path reaches, those are left that none before it reaches.
    have hlast {s : Sighting} (hs : s ∈ (firstOfEach Sighting.id (reached tree o path)).filter
        (Sighting.id · ∉ (paths.flatMap (reached tree o)).map Sighting.id)) :
        FirstReached tree o (paths ++ [path]) paths.length s.place s.id := by
      obtain ⟨hmem, hnew⟩ := List.mem_filter.mp hs
      obtain ⟨hat, hreaches⟩ := (mem_reached ht).mp (mem_of_mem_firstOfEach hmem)
      refine firstReached_last hreaches fun p hp hp' => ?_
      have hbefore : s ∈ paths.flatMap (reached tree o) :=
        (mem_flatMap_reached ht).mpr ⟨hat, p, hp, hp'⟩
      exact of_decide_eq_true hnew (List.mem_map_of_mem hbefore)
    refine List.pairwise_append.mpr ⟨ih.imp fun h => h.concat path, ?_, ?_⟩
    · have hsorted : (firstOfEach Sighting.id (reached tree o path)).Pairwise
          fun s s' => s.place < s'.place := (pairwise_reached ht).sublist (firstOfEach_sublist _)
      refine (hsorted.filter _).imp_of_mem fun hs hs' hlt => ?_
      exact ⟨_, _, hlast hs, hlast hs', .inr ⟨rfl, hlt⟩⟩
    · intro s hs s' hs'
      obtain ⟨-, hreached⟩ := (mem_flatMap_reached ht).mp (mem_of_mem_firstOfEach hs)
      obtain ⟨i, hi⟩ := exists_firstReached hreached
      exact ⟨i, _, hi.concat path, hlast hs', .inl hi.lt_length⟩

/-! ### Collected files -/

/-- The source file, if the bytes are a text. -/
def Sighting.source? (s : Sighting) : Option SourceFile :=
  (FileTree.decode s.bytes).toOption.map (.of s.id)

theorem Sighting.source?_eq_some_iff {file : SourceFile} :
    s.source? = some file ↔ ∃ content, s.bytes = content.toUTF8 ∧ .of s.id content = file := by
  unfold source?
  rw [Option.map_eq_some_iff]
  have hdecode (content : String) :
      (FileTree.decode s.bytes).toOption = some content ↔ s.bytes = content.toUTF8 := by
    rw [← FileTree.decode_eq_ok_iff]
    cases FileTree.decode s.bytes <;> simp [Except.toOption]
  simp only [hdecode]

theorem Sighting.id_of_source? {file : SourceFile} (h : s.source? = some file) :
    file.id = s.id := by
  obtain ⟨content, -, rfl⟩ := source?_eq_some_iff.mp h
  rfl

/-- The texts among the files that paths reach, each with its place. -/
def placedSources (tree : FileTree) (o : WalkOptions) (paths : List RawText) :
    List (List RawText × SourceFile) :=
  (firstOfEach Sighting.id (paths.flatMap (reached tree o))).filterMap fun s =>
    s.source?.map (s.place, ·)

theorem map_snd_placedSources (tree : FileTree) (o : WalkOptions) (paths : List RawText) :
    (placedSources tree o paths).map (·.2) = sources (met tree o paths) := by
  have hsame : (paths.flatMap (reached tree o)).map (fun s => (s.id, s.bytes)) =
      (met tree o paths).map fun m => (m.id, m.bytes) := by
    rw [met, List.map_flatMap, List.map_flatMap]
    exact List.flatMap_congr fun path _ => (map_metBy tree o path).symm
  have hsources := filterMap_firstOfEach_congr Prod.fst
    (fun x => (FileTree.decode x.2).toOption.map (SourceFile.of x.1)) hsame
  rw [placedSources, List.map_filterMap]
  simp only [Option.map_map, Function.comp_def, Option.map_id']
  exact hsources

theorem mem_placedSources_iff {p : List RawText × SourceFile} :
    p ∈ placedSources tree o paths ↔
      ∃ s ∈ firstOfEach Sighting.id (paths.flatMap (reached tree o)),
        s.source? = some p.2 ∧ s.place = p.1 := by
  simp only [placedSources, List.mem_filterMap, Option.map_eq_some_iff]
  constructor
  · rintro ⟨s, hs, file, hfile, rfl⟩
    exact ⟨s, hs, hfile, rfl⟩
  · rintro ⟨s, hs, hfile, hplace⟩
    exact ⟨s, hs, p.2, hfile, Prod.ext hplace rfl⟩

theorem nodup_ids_sources (ms : List Met) : ((sources ms).map (·.id)).Nodup := by
  refine List.pairwise_map.mpr (List.pairwise_filterMap.mpr ?_)
  refine (List.pairwise_map.mp (nodup_map_firstOfEach Met.id ms)).imp fun hne f hf g hg => ?_
  rwa [Met.id_of_source? hf, Met.id_of_source? hg]

/-- The texts that are collected are those that some path reaches. -/
theorem mem_placedSources (ht : WellNamed tree.root) {file : SourceFile} :
    (place, file) ∈ placedSources tree o paths ↔
      ∃ content, At tree.root place (.file content.toUTF8) ∧
        ∃ path ∈ paths, ∃ id, Reaches tree o path place id ∧ file = .of id content := by
  simp only [mem_placedSources_iff, mem_firstOfEach_reached ht, mem_flatMap_reached ht,
    Sighting.source?_eq_some_iff]
  constructor
  · rintro ⟨s, ⟨hat, path, hpath, hreaches⟩, ⟨content, hbytes, rfl⟩, rfl⟩
    exact ⟨content, hbytes ▸ hat, path, hpath, s.id, hreaches, rfl⟩
  · rintro ⟨content, hat, path, hpath, id, hreaches, rfl⟩
    exact ⟨⟨place, id, content.toUTF8⟩, ⟨hat, path, hpath, hreaches⟩, ⟨content, rfl, rfl⟩, rfl⟩

/-- **A collection holds the files that its paths reach, once under each id.** Their ids are
different canonical paths, and their contents are the texts at their places. A text is among them
under an id just if some path reaches it so: by naming it, or a directory below which it is wanted.
They come in the order in which paths reach them first, and under one path by the names on the way.
A text has two ids only if one is absolute and one is not, or one climbs above the working
directory. -/
theorem collected_once_under_each_id {files : List SourceFile} (ht : WellNamed tree.root)
    (h : collect tree paths o = .ok files) :
    (files.map (·.id)).Nodup ∧
      (∀ file ∈ files, Path.normalize file.id = file.id) ∧
      ∃ placed : List (List RawText × SourceFile), placed.map (·.2) = files ∧
        (∀ place file, (place, file) ∈ placed ↔
          ∃ content, At tree.root place (.file content.toUTF8) ∧
            ∃ path ∈ paths, ∃ id, Reaches tree o path place id ∧ file = .of id content) ∧
        (placed.Pairwise fun p q => ReachedBefore tree o paths p.1 p.2.id q.1 q.2.id) ∧
        ∀ p ∈ placed, ∀ q ∈ placed, p.1 = q.1 →
          Path.isAbsolute p.2.id.toList = Path.isAbsolute q.2.id.toList →
          ¬ Path.Climbs p.2.id → ¬ Path.Climbs q.2.id → p.2 = q.2 := by
  obtain ⟨-, rfl⟩ := readable_of_collect_eq_ok h
  refine ⟨nodup_ids_sources _, fun file hfile => ?_, placedSources tree o paths,
    map_snd_placedSources tree o paths, fun place file => mem_placedSources ht, ?_, ?_⟩
  · rw [← map_snd_placedSources] at hfile
    obtain ⟨p, hp, rfl⟩ := List.mem_map.mp hfile
    obtain ⟨s, hs, hsource, -⟩ := mem_placedSources_iff.mp hp
    rw [Sighting.id_of_source? hsource]
    exact (land_id ht (mem_of_mem_firstOfEach hs)).1
  · refine List.pairwise_filterMap.mpr ((pairwise_firstOfEach ht paths).imp ?_)
    intro s s' hbefore p hp q hq
    obtain ⟨file, hfile, rfl⟩ := Option.map_eq_some_iff.mp hp
    obtain ⟨file', hfile', rfl⟩ := Option.map_eq_some_iff.mp hq
    rwa [Sighting.id_of_source? hfile, Sighting.id_of_source? hfile']
  · intro p hp q hq hplace hstart hclimbs hclimbs'
    obtain ⟨s, hs, hsource, hp⟩ := mem_placedSources_iff.mp hp
    obtain ⟨s', hs', hsource', hq⟩ := mem_placedSources_iff.mp hq
    rw [Sighting.id_of_source? hsource, Sighting.id_of_source? hsource'] at hstart
    rw [Sighting.id_of_source? hsource] at hclimbs
    rw [Sighting.id_of_source? hsource'] at hclimbs'
    have hsame : s = s' := eq_of_place_eq ht (mem_of_mem_firstOfEach hs)
      (mem_of_mem_firstOfEach hs') (by rw [hp, hq, hplace]) hstart hclimbs hclimbs'
    subst hsame
    exact Option.some.inj (hsource.symm.trans hsource')

/-- A file named before its directory, by a path that goes down and up again, and an ignored
directory that is named itself. -/
theorem collected_once_under_each_id_overlapping :
    let lib : List FileEntry := [.file "a.ts" "a();".toUTF8]
    let tree : FileTree :=
      ⟨[.directory "src" [.file "z.ts" "z();".toUTF8, .directory "lib" lib]], [⟨"w", []⟩]⟩
    let o : WalkOptions := ⟨["ts"], ["lib"]⟩
    let paths : List RawText := ["src/lib/../z.ts", "src", "./src/lib"]
    let files : List SourceFile := [.of "src/z.ts" "z();", .of "src/lib/a.ts" "a();"]
    let place : List RawText := ["w", "src", "lib", "a.ts"]
    WellNamed tree.root ∧ collect tree paths o = .ok files ∧
      ∃ placed : List (List RawText × SourceFile), placed.map (·.2) = files ∧
        (place, .of "src/lib/a.ts" "a();") ∈ placed ∧
        placed.Pairwise fun p q => ReachedBefore tree o paths p.1 p.2.id q.1 q.2.id := by
  intro lib tree o paths files place
  have hlib : WellNamed lib := .intro (by decide +kernel) (by decide +kernel) (by simp [lib])
  have hsrc : WellNamed [.file "z.ts" "z();".toUTF8, .directory "lib" lib] := by
    refine .intro (by decide +kernel) (by decide +kernel) fun name inner hmem => ?_
    obtain ⟨-, rfl⟩ : name = "lib" ∧ inner = lib := by simpa using hmem
    exact hlib
  have hwork : WellNamed tree.entries := by
    refine .intro (by decide +kernel) (by decide +kernel) fun name inner hmem => ?_
    cases List.mem_singleton.mp hmem
    exact hsrc
  have ht : WellNamed tree.root := by
    refine .intro (by decide +kernel) (by decide +kernel) fun name inner hmem => ?_
    cases List.mem_singleton.mp hmem
    exact hwork
  have hwants : o.wants "z.ts" = true ∧ o.wants "a.ts" = true := by decide +kernel
  have hignores : o.ignores "lib" = true := by decide +kernel
  have hsorted : ¬ RawText.ofString "z.ts" ≤ "lib" := by decide +kernel
  have hbelow : o.filesBelow [.file "z.ts" "z();".toUTF8, .directory "lib" lib] =
      [⟨["z.ts"], "z();".toUTF8⟩] := by
    simp [WalkOptions.filesBelow, FileTree.walk, FileTree.groups, FileTree.filesOf, FileEntry.name,
      List.mergeSort, List.MergeSort.Internal.splitInTwo, hwants, hignores, hsorted]
  have hbelow' : o.filesBelow lib = [⟨["a.ts"], "a();".toUTF8⟩] :=
    WalkOptions.filesBelow_file hwants.2 _
  have hcollect : collect tree paths o = .ok files := by
    have hfirst : Collection.addPath tree o ⟨[], []⟩ "src/lib/../z.ts" =
        .ok ⟨[.of "src/z.ts" "z();"], ["src/z.ts"]⟩ := rfl
    have hsecond : Collection.addPath tree o ⟨[.of "src/z.ts" "z();"], ["src/z.ts"]⟩ "src" =
        .ok ⟨[.of "src/z.ts" "z();"], ["src/z.ts"]⟩ := by
      rw [Collection.addPath_of_directory rfl, hbelow]
      rfl
    have hthird : Collection.addPath tree o ⟨[.of "src/z.ts" "z();"], ["src/z.ts"]⟩ "./src/lib" =
        .ok ⟨files, ["src/lib/a.ts", "src/z.ts"]⟩ := by
      rw [Collection.addPath_of_directory rfl, hbelow']
      rfl
    have hall : paths.foldlM (Collection.addPath tree o) ⟨[], []⟩ =
        .ok ⟨files, ["src/lib/a.ts", "src/z.ts"]⟩ := by
      simp [paths, hfirst, hsecond, hthird, bind, Except.bind, pure, Except.pure]
    unfold collect
    rw [hall]
    rfl
  obtain ⟨-, -, placed, hfiles, hmem, hordered, -⟩ := collected_once_under_each_id ht hcollect
  have hat : At tree.root place (.file "a();".toUTF8) :=
    .inside List.mem_cons_self (.inside List.mem_cons_self
      (.inside (List.mem_cons_of_mem _ List.mem_cons_self) (.file List.mem_cons_self)))
  have hreaches : Reaches tree o "./src/lib" place "src/lib/a.ts" :=
    .inr ⟨rfl, [], "a.ts", rfl, WalkOptions.wants_iff.mp hwants.2, by simp [NoneIgnored], rfl⟩
  exact ⟨ht, hcollect, placed, hfiles,
    (hmem _ _).mpr ⟨_, hat, "./src/lib", by simp [paths], _, hreaches, rfl⟩, hordered⟩

/-- A file that is reached by an absolute path and by a relative one is collected twice. Of files
whose names are no texts and are shown alike only one is collected. -/
theorem collected_twice_or_left_out :
    let o : WalkOptions := ⟨["ts"], []⟩
    let tree : FileTree := ⟨[.directory "src" [.file "a.ts" "a();".toUTF8]], [⟨"w", []⟩]⟩
    let name (byte : UInt8) : RawText := ⟨[byte, RawText.dot, 0x74, 0x73]⟩
    let broken : FileTree :=
      ⟨[.file (name 0xfe) "a();".toUTF8, .file (name 0xff) "b();".toUTF8], []⟩
    (tree.locate "src/a.ts" = tree.locate "/w/src/a.ts" ∧
      collect tree ["src", "/w/src"] o =
        .ok [.of "src/a.ts" "a();", .of "/w/src/a.ts" "a();"]) ∧
    o.wants (name 0xfe) = true ∧ o.wants (name 0xff) = true ∧
      collect broken ["."] o = .ok [.of "\ufffd.ts" "a();"] := by
  intro o tree name broken
  have hwants : o.wants "a.ts" = true := by decide +kernel
  have hwants' : o.wants (name 0xfe) = true ∧ o.wants (name 0xff) = true := by decide +kernel
  have hsorted : name 0xfe ≤ name 0xff := by decide +kernel
  have hbelow : o.filesBelow [.file "a.ts" "a();".toUTF8] = [⟨["a.ts"], "a();".toUTF8⟩] :=
    WalkOptions.filesBelow_file hwants _
  have hbelow' : o.filesBelow broken.entries =
      [⟨[name 0xfe], "a();".toUTF8⟩, ⟨[name 0xff], "b();".toUTF8⟩] := by
    rw [WalkOptions.filesBelow_pair o hsorted]
    simp [hwants']
  refine ⟨⟨by decide +kernel, ?_⟩, hwants'.1, hwants'.2, ?_⟩
  · have hrelative : Collection.addPath tree o ⟨[], []⟩ "src" =
        .ok ⟨[.of "src/a.ts" "a();"], ["src/a.ts"]⟩ := by
      rw [Collection.addPath_of_directory rfl, hbelow]
      rfl
    have habsolute : Collection.addPath tree o ⟨[.of "src/a.ts" "a();"], ["src/a.ts"]⟩ "/w/src" =
        .ok ⟨[.of "src/a.ts" "a();", .of "/w/src/a.ts" "a();"],
          ["/w/src/a.ts", "src/a.ts"]⟩ := by
      rw [Collection.addPath_of_directory rfl, hbelow]
      rfl
    simp only [collect, List.foldlM_cons, hrelative, habsolute, bind, Except.bind]
    rfl
  · have hhere : Collection.addPath broken o ⟨[], []⟩ "." =
        .ok ⟨[.of "\ufffd.ts" "a();"], ["\ufffd.ts"]⟩ := by
      have hid : pathId (RawText.join "." [name 0xfe]) = "\ufffd.ts" ∧
          pathId (RawText.join "." [name 0xff]) = "\ufffd.ts" := by decide +kernel
      have htext : FileTree.decode "a();".toUTF8 = .ok "a();" := rfl
      rw [Collection.addPath_of_directory rfl, hbelow']
      simp only [List.foldl_cons, List.foldl_nil, Collection.addFound, hid, htext]
      rfl
    simp only [collect, List.foldlM_cons, hhere, bind, Except.bind]
    rfl

end ScriptAtlas
