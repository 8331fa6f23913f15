import ScriptAtlas.Proofs.GraphConstruction
import ScriptAtlas.Proofs.PathJoin

/-! # From the directory of the importer

A relative name is looked up from the directory of the file that mentions it. Where that directory
has segments, the path tried is the name behind the directory (`base_eq_ofList`), and it is absolute
just if the importer is. A file right below the root has the empty directory, and a name in it is
looked up as from a file without a directory: `resolve_side_iff` says that this is the one case in
which a name leads from absolute paths to relative ones. -/

namespace ScriptAtlas.Resolver

open ScriptAtlas.Path

variable {absolute : Bool} {segments : List Segment} {importer specifier target : String}

/-! ### The path tried -/

theorem isAbsolute_slashed_of_isRelative (h : isRelative specifier = true) :
    isAbsolute (slashed specifier.toList) = false := by
  unfold isRelative at h
  split at h <;> simp_all [slashed, isAbsolute]

theorem exists_segments_normalize (path : String) :
    ∃ absolute segments, Path.normalize path = String.ofList (render absolute segments) ∧
      IsCanonical absolute segments :=
  exists_render_of_normalize_eq (normalize_normalize path)

/-- The path that a name stands for, by the segments of the importer. -/
theorem base_eq_ofList
    (himporter : Path.normalize importer = String.ofList (render absolute segments))
    (h : IsCanonical absolute segments) (hspecifier : isRelative specifier = true)
    (hroot : absolute = true → segments.dropLast ≠ []) :
    base importer specifier = String.ofList
      (render absolute (descend absolute segments.dropLast (written specifier))) := by
  rw [base, himporter, parent_render h]
  by_cases hdir : segments.dropLast = []
  · have hrelative : absolute = false := by simpa [hdir] using hroot
    simp only [hdir, if_true, hrelative]
    exact normalize_of_relative (isAbsolute_slashed_of_isRelative hspecifier)
  · have hne : String.ofList (render absolute segments.dropLast) ≠ "" := fun hempty =>
      hdir ((ofList_render_eq_empty_iff h.dropLast).mp hempty).2
    simp only [if_neg hdir, if_neg hne]
    exact normalize_join h.dropLast hdir specifier

/-- From a file whose directory is empty, a name is looked up as it stands. -/
theorem base_of_dropLast_eq_nil
    (himporter : Path.normalize importer = String.ofList (render absolute segments))
    (h : IsCanonical absolute segments) (hdir : segments.dropLast = []) :
    base importer specifier = Path.normalize specifier := by
  rw [base, himporter, parent_render h, if_pos hdir]
  rfl

theorem isAbsolute_base
    (himporter : Path.normalize importer = String.ofList (render absolute segments))
    (h : IsCanonical absolute segments) (hspecifier : isRelative specifier = true) :
    isAbsolute (base importer specifier).toList = (absolute && segments.dropLast ≠ []) := by
  by_cases hdir : segments.dropLast = []
  · rw [base_of_dropLast_eq_nil himporter h hdir, isAbsolute_normalize,
      isAbsolute_slashed_of_isRelative hspecifier]
    simp [hdir]
  · rw [base_eq_ofList himporter h hspecifier fun _ => hdir, String.toList_ofList,
      isAbsolute_render (isCanonical_descend h.dropLast specifier)]
    simp [hdir]

/-! ### What is found -/

theorem isAbsolute_of_mem_candidates {extensions : List String} {path : String}
    (h : target ∈ candidates extensions path) :
    isAbsolute target.toList = isAbsolute path.toList := by
  have hlonger : ∀ rest : String, path ≠ "" →
      isAbsolute (path ++ rest).toList = isAbsolute path.toList := by
    intro rest hpath
    rw [String.toList_append]
    exact isAbsolute_append (by simpa using hpath) _
  rcases mem_candidates_iff.mp h with ⟨⟨hempty, -⟩, rfl | ⟨e, -, rfl⟩⟩ | h
  · rfl
  · rw [String.append_assoc]
    exact hlonger _ hempty
  · obtain ⟨e, -, rfl⟩ := List.mem_map.mp h
    by_cases hempty : path = ""
    · subst hempty
      simp [isAbsolute]
    · split
      · rw [String.append_assoc]
        exact hlonger _ hempty
      · rw [String.append_assoc, String.append_assoc]
        exact hlonger _ hempty

variable {r : Resolver}

theorem isRelative_of_resolve (h : r.resolve importer specifier = some target) :
    isRelative specifier = true := by
  unfold resolve at h
  split at h
  · next hrelative => exact hrelative
  · cases h

theorem isAbsolute_of_resolve
    (himporter : Path.normalize importer = String.ofList (render absolute segments))
    (hc : IsCanonical absolute segments) (h : r.resolve importer specifier = some target) :
    isAbsolute target.toList = (absolute && segments.dropLast ≠ []) := by
  rw [isAbsolute_of_mem_candidates (mem_candidates_of_resolve h).1]
  exact isAbsolute_base himporter hc (isRelative_of_resolve h)

/-- If the path tried names a module itself, then it is found. -/
theorem resolve_of_contains_base (hspecifier : isRelative specifier = true)
    (hbase : base importer specifier = target) (hempty : target ≠ "") (hroot : target ≠ "/")
    (hcontains : r.contains target = true) : r.resolve importer specifier = some target := by
  rw [resolve, if_pos hspecifier, hbase, candidates, if_neg (by simp [hempty, hroot]),
    List.cons_append, List.find?_cons_of_pos hcontains]

/-! ### Files right below the root -/

/-- The importer is the root itself or stands right below it. -/
def BesideRoot (importer : String) : Prop :=
  ∃ file : String, '/' ∉ file.toList ∧ Path.normalize importer = "/" ++ file

theorem parent_append {dir file : String} (h : '/' ∉ file.toList) :
    parent (dir ++ "/" ++ file) = dir := by
  have hchars : (dir ++ "/" ++ file).toList = dir.toList ++ '/' :: file.toList := by simp
  rw [parent, hchars, parentChars_append h, String.ofList_toList]

theorem besideRoot_iff
    (himporter : Path.normalize importer = String.ofList (render absolute segments))
    (h : IsCanonical absolute segments) :
    BesideRoot importer ↔ absolute = true ∧ segments.dropLast = [] := by
  constructor
  · rintro ⟨file, hfile, heq⟩
    have habsolute : absolute = true := by
      rw [← isAbsolute_render h, ← String.toList_ofList (l := render absolute segments),
        ← himporter, heq, String.toList_append]
      rfl
    refine ⟨habsolute, ?_⟩
    have hparent : parent ("" ++ "/" ++ file) = "" := parent_append hfile
    rw [String.empty_append, ← heq, himporter, parent_render h] at hparent
    by_contra hdir
    rw [if_neg hdir] at hparent
    exact hdir ((ofList_render_eq_empty_iff h.dropLast).mp hparent).2
  · rintro ⟨rfl, hdir⟩
    rcases List.eq_nil_or_concat segments with rfl | ⟨dir, file, rfl⟩
    · exact ⟨"", by simp, by rw [himporter]; rfl⟩
    · rw [List.concat_eq_append] at h hdir himporter
      obtain rfl : dir = [] := by simpa using hdir
      refine ⟨String.ofList file, by simpa using h.slash_not_mem file (by simp), ?_⟩
      rw [himporter]
      simp [render, joinSegments]

/-- A name that opens with `./` is looked up like the rest of it. -/
theorem normalize_join_dot {dir : List Segment} (hdir : IsCanonical absolute dir) (hne : dir ≠ [])
    (name : String) :
    Path.normalize (String.ofList (render absolute dir) ++ "/" ++ ("./" ++ name)) =
      Path.normalize (String.ofList (render absolute dir) ++ "/" ++ name) := by
  have hwritten : written ("./" ++ name) = ['.'] :: written name := by
    have hchars : slashed ("./" ++ name).toList = ['.'] ++ '/' :: slashed name.toList := by
      simp [slashed]
    rw [written, hchars, splitAt_append_cons]
    rfl
  rw [normalize_join hdir hne, normalize_join hdir hne, hwritten, descend, List.foldl_cons,
    push_of_skip (Or.inr rfl), descend]

theorem isAbsolute_eq_iff_of_resolve (h : r.resolve importer specifier = some target) :
    isAbsolute target.toList = isAbsolute (Path.normalize importer).toList ↔
      ¬ BesideRoot importer := by
  obtain ⟨absolute, segments, himporter, hc⟩ := exists_segments_normalize importer
  rw [isAbsolute_of_resolve himporter hc h, besideRoot_iff himporter hc, himporter,
    String.toList_ofList, isAbsolute_render hc]
  cases absolute <;> simp

theorem base_eq_normalize_join {dir file : String}
    (himporter : Path.normalize importer = dir ++ "/" ++ file)
    (hfile : '/' ∉ file.toList) (hdir : dir ≠ "") (specifier : String) :
    base importer specifier = Path.normalize (dir ++ "/" ++ specifier) := by
  rw [base, himporter, parent_append hfile]
  exact congrArg Path.normalize (if_neg hdir)

theorem resolve_sibling {dir file name : String}
    (himporter : Path.normalize importer = dir ++ "/" ++ file)
    (hfile : '/' ∉ file.toList) (hdir : dir ≠ "")
    (hname : Path.normalize (dir ++ "/" ++ name) = dir ++ "/" ++ name)
    (hcontains : r.contains (dir ++ "/" ++ name) = true) :
    r.resolve importer ("./" ++ name) = some (dir ++ "/" ++ name) := by
  obtain ⟨absolute, segments, hsegments, hc⟩ := exists_segments_normalize importer
  have hparent : parent (String.ofList (render absolute segments)) = dir := by
    rw [← hsegments, himporter, parent_append hfile]
  rw [parent_render hc] at hparent
  have hne : segments.dropLast ≠ [] := fun hnil => hdir (by rw [← hparent, if_pos hnil])
  rw [if_neg hne] at hparent
  have hbase : base importer ("./" ++ name) = dir ++ "/" ++ name := by
    rw [base_eq_normalize_join himporter hfile hdir, ← hparent, normalize_join_dot hc.dropLast hne,
      hparent, hname]
  exact resolve_of_contains_base (by simp [isRelative]) hbase (by simp) (join_ne_root (Or.inl hdir))
    hcontains

/-- **Names stay on the importer's side of the root, but for files right below it.** What a name
resolves to is absolute just if the importer is, the path tried is the name behind the importer's
directory, and files of one directory find each other, each time just if the importer does not
stand right below the root. -/
theorem resolve_side_iff (r : Resolver) (importer : String) :
    (∀ specifier target, r.resolve importer specifier = some target →
      (isAbsolute target.toList = isAbsolute (Path.normalize importer).toList ↔
        ¬ BesideRoot importer)) ∧
    ∀ dir file, Path.normalize importer = dir ++ "/" ++ file → '/' ∉ file.toList →
      (∀ specifier, isRelative specifier = true →
        (base importer specifier =
            Path.normalize ((if dir = "" then "/" else dir) ++ "/" ++ specifier) ↔ dir ≠ "")) ∧
      ∀ name, Path.normalize (dir ++ "/" ++ name) = dir ++ "/" ++ name →
        r.contains (dir ++ "/" ++ name) = true →
        (r.resolve importer ("./" ++ name) = some (dir ++ "/" ++ name) ↔ dir ≠ "") := by
  refine ⟨fun specifier target h => isAbsolute_eq_iff_of_resolve h, ?_⟩
  intro dir file himporter hfile
  have hbeside : dir = "" → BesideRoot importer := by
    rintro rfl
    exact ⟨file, hfile, by simpa using himporter⟩
  refine ⟨fun specifier hspecifier => ⟨?_, ?_⟩, fun name hname hcontains => ⟨?_, ?_⟩⟩
  · intro hbase hdir
    -- The name itself is relative, and behind the root it is not.
    rw [base, himporter, parent_append hfile, if_pos hdir, if_pos hdir] at hbase
    have hside := congrArg (fun path => isAbsolute path.toList) hbase
    simp only [isAbsolute_normalize, isAbsolute_slashed_of_isRelative hspecifier] at hside
    simp [slashed, isAbsolute] at hside
  · intro hdir
    rw [if_neg hdir]
    exact base_eq_normalize_join himporter hfile hdir specifier
  · intro hresolve hdir
    refine absurd (hbeside hdir) ((isAbsolute_eq_iff_of_resolve hresolve).mp ?_)
    rw [himporter, hdir]
    simp [isAbsolute]
  · intro hdir
    exact resolve_sibling himporter hfile hdir hname hcontains

/-- One directory down, siblings find each other and stay among absolute paths. -/
theorem resolve_side_iff_nested :
    let r := Resolver.of ["ts"] ["/p/a.ts", "/p/b.ts", "p/b.ts"].contains
    Path.normalize "\\p//a.ts" = "/p" ++ "/" ++ "a.ts" ∧ ¬ BesideRoot "\\p//a.ts" ∧
      base "\\p//a.ts" "../q" = Path.normalize ("/p" ++ "/" ++ "../q") ∧
      r.resolve "\\p//a.ts" ("./" ++ "b.ts") = some ("/p" ++ "/" ++ "b.ts") := by
  intro r
  have himporter : Path.normalize "\\p//a.ts" = "/p" ++ "/" ++ "a.ts" := by decide +kernel
  obtain ⟨hside, hdir⟩ := resolve_side_iff r "\\p//a.ts"
  obtain ⟨hbase, hsibling⟩ := hdir "/p" "a.ts" himporter (by decide)
  have hresolve := (hsibling "b.ts" (by decide +kernel) (by decide +kernel)).mpr (by decide)
  refine ⟨himporter, (hside _ _ hresolve).mp (by decide +kernel), ?_, hresolve⟩
  exact (hbase "../q" (by decide +kernel)).mpr (by decide)

/-- A file right below the root finds the module without a directory, not its sibling. -/
theorem resolve_below_root :
    let files : List SourceFile := [.of "/a.ts" "", .of "/b.ts" "", .of "b.ts" ""]
    let r := resolverFor .empty files .virtual ({} : GraphOptions).extensions
    r.resolve "/a.ts" "./b" = some "b.ts" ∧ isAbsolute (Path.normalize "/a.ts").toList = true ∧
      isAbsolute "b.ts".toList = false ∧
      base "/a.ts" "./b" ≠ Path.normalize ("/" ++ "/" ++ "./b") := by
  decide +kernel

end ScriptAtlas.Resolver
