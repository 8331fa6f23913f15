import ScriptAtlas.Proofs.ImporterDirectory

/-! # Moving files to another directory

Files that are put behind a directory together still find each other: a name resolves to what it
resolved to before, behind that directory (`resolve_relocated`). The path tried moves along
(`base_relocated`), and so do its candidates (`candidates_join`). Only a name for the place where
the files stand has more candidates after the move than before (`candidates_eq_append_map`), and
none of these is a file behind the directory (`find?_directory_eq_none`). -/

namespace ScriptAtlas

open ScriptAtlas.Path

/-- The file behind a directory. -/
def SourceFile.relocate (d : String) (file : SourceFile) : SourceFile :=
  { file with id := d ++ "/" ++ file.id }

namespace Resolver

variable {absolute : Bool} {dir : List Segment} {d importer specifier : String}
  {files : List SourceFile}

/-! ### Candidates behind a directory -/

theorem indexFiles_append (extensions : List String) (d dir : String) :
    indexFiles extensions (d ++ dir) = (indexFiles extensions dir).map (d ++ ·) := by
  simp [indexFiles, String.append_assoc]

theorem candidates_join (extensions : List String) (d : String) {path : String}
    (hempty : path ≠ "") (hroot : path ≠ "/") :
    candidates extensions (d ++ "/" ++ path) =
      (candidates extensions path).map (d ++ "/" ++ ·) := by
  have hjoin : d ++ "/" ++ path ≠ "/" := join_ne_root (Or.inr hempty)
  have hindex : indexFiles extensions (d ++ "/" ++ path ++ "/") =
      (indexFiles extensions (path ++ "/")).map (d ++ "/" ++ ·) := by
    rw [String.append_assoc, indexFiles_append]
  rw [candidates, if_neg (by simp [hjoin]), hindex, candidates, if_neg (by simp [hempty, hroot])]
  simp [Function.comp_def, String.append_assoc]

/-- The directory itself, also with an extension, is tried only from below. -/
theorem candidates_eq_append_map (extensions : List String) (hempty : d ≠ "") (hroot : d ≠ "/") :
    candidates extensions d = (d :: extensions.map (d ++ "." ++ ·)) ++
      (candidates extensions "").map (d ++ "/" ++ ·) := by
  have htop : candidates extensions "" = indexFiles extensions "" := rfl
  rw [candidates, if_neg (by simp [hempty, hroot]), htop, ← indexFiles_append, String.append_empty]

/-! ### Files behind a directory -/

theorem normalize_relocated (hdir : IsCanonical absolute dir) (hne : dir ≠ []) {path : String}
    (h : IsInner path) :
    Path.normalize (String.ofList (render absolute dir) ++ "/" ++ path) =
      String.ofList (render absolute dir) ++ "/" ++ Path.normalize path := by
  rw [h.normalize_join hdir hne, ofList_render_append absolute hne h.segments_ne_nil,
    h.normalize_eq]

/-- The files behind the directory are the files, each behind it. -/
theorem map_normalize_relocate (hdir : IsCanonical absolute dir) (hne : dir ≠ [])
    (hfiles : ∀ f ∈ files, IsInner f.id) :
    ((files.map (SourceFile.relocate (String.ofList (render absolute dir)))).map
        fun f => Path.normalize f.id) =
      (files.map fun f => Path.normalize f.id).map
        (String.ofList (render absolute dir) ++ "/" ++ ·) := by
  rw [List.map_map, List.map_map]
  exact List.map_congr_left fun f hf => normalize_relocated hdir hne (hfiles f hf)

theorem contains_map_append (ids : List String) (d path : String) :
    (ids.map (d ++ ·)).contains (d ++ path) = ids.contains path := by
  rw [Bool.eq_iff_iff, List.contains_iff_mem, List.contains_iff_mem, List.mem_map]
  constructor
  · rintro ⟨id, hid, heq⟩
    rwa [← (String.append_right_inj d).mp heq]
  · exact fun hpath => ⟨path, hpath, rfl⟩

theorem find?_directory_eq_none (ids extensions : List String) (d : String) :
    (d :: extensions.map (d ++ "." ++ ·)).find? (ids.map (d ++ "/" ++ ·)).contains = none := by
  have hbehind : ∀ rest : String, rest.toList.head? ≠ some '/' →
      (ids.map (d ++ "/" ++ ·)).contains (d ++ rest) = false := by
    intro rest hrest
    rw [← Bool.not_eq_true, List.contains_iff_mem, List.mem_map]
    rintro ⟨id, -, heq⟩
    rw [String.append_assoc] at heq
    rw [← (String.append_right_inj d).mp heq] at hrest
    simp at hrest
  rw [List.find?_eq_none]
  intro path hpath
  rw [Bool.not_eq_true]
  rcases List.mem_cons.mp hpath with rfl | hpath
  · simpa using hbehind "" (by simp)
  · obtain ⟨e, -, rfl⟩ := List.mem_map.mp hpath
    rw [String.append_assoc]
    exact hbehind _ (by simp)

/-! ### The path tried -/

/-- The path tried moves along with the importer, unless it leaves the place that is moved. -/
theorem base_relocated (hdir : IsCanonical absolute dir) (hne : dir ≠ []) (hi : IsInner importer)
    (hspecifier : isRelative specifier = true) (hbase : ¬ Climbs (base importer specifier)) :
    base (String.ofList (render absolute dir) ++ "/" ++ importer) specifier =
      if base importer specifier = "" then String.ofList (render absolute dir)
      else String.ofList (render absolute dir) ++ "/" ++ base importer specifier := by
  have hc : IsCanonical false (descend false [] (written importer)) := isCanonical_written _
  have hjoined : IsCanonical absolute (dir ++ descend false [] (written importer)) := by
    rw [← descend_append absolute List.not_mem_nil hi.head?_segments, List.append_nil]
    exact isCanonical_descend hdir _
  have hlast : (dir ++ descend false [] (written importer)).dropLast =
      dir ++ (descend false [] (written importer)).dropLast :=
    List.dropLast_append_of_ne_nil hi.segments_ne_nil
  have hbefore := base_eq_ofList hi.normalize_eq hc hspecifier (by simp)
  have hcanonical := isCanonical_descend hc.dropLast specifier
  rw [hbefore, climbs_render hcanonical] at hbase
  rw [base_eq_ofList (hi.normalize_join hdir hne) hjoined hspecifier (by simp [hlast, hne]), hlast,
    descend_append absolute (fun hmem => hi.dotDot_not_mem (List.dropLast_subset _ hmem)) hbase,
    hbefore]
  simp only [ofList_render_eq_empty_iff hcanonical, true_and]
  split
  · next hnil => rw [hnil, List.append_nil]
  · next hsome => exact ofList_render_append absolute hne hsome

theorem base_ne_root (hi : IsInner importer) (hspecifier : isRelative specifier = true) :
    base importer specifier ≠ "/" := by
  intro hroot
  have hside := isAbsolute_base hi.normalize_eq (isCanonical_written _) hspecifier
  rw [hroot] at hside
  simp [isAbsolute] at hside

/-! ### Resolution -/

/-- **Files that move together find each other as before.** Put all files and the importer behind
a directory: a name that stays among the files resolves to the same file behind that directory,
and one that did not resolve still does not. -/
theorem resolve_relocated (tree : FileTree) (extensions : List String) (hd : Path.normalize d = d)
    (hempty : d ≠ "") (hroot : d ≠ "/") (hfiles : ∀ f ∈ files, IsInner f.id)
    (hi : IsInner importer) (hbase : ¬ Climbs (base importer specifier)) :
    (resolverFor tree (files.map (·.relocate d)) .virtual extensions).resolve
        (d ++ "/" ++ importer) specifier =
      ((resolverFor tree files .virtual extensions).resolve importer specifier).map
        (d ++ "/" ++ ·) := by
  obtain ⟨absolute, dir, rfl, hdir, hne⟩ := exists_segments_of_normalize_eq hd hempty hroot
  by_cases hspecifier : isRelative specifier = true
  · have hcontains := contains_map_append (files.map fun f => Path.normalize f.id)
      (String.ofList (render absolute dir) ++ "/")
    simp only [resolve, hspecifier, if_true, resolverFor, Resolver.of,
      map_normalize_relocate hdir hne hfiles, base_relocated hdir hne hi hspecifier hbase]
    by_cases htop : base importer specifier = ""
    · rw [if_pos htop, htop, candidates_eq_append_map _ hempty hroot, List.find?_append,
        find?_directory_eq_none, Option.none_or, List.find?_map]
      simp only [Function.comp_def, hcontains]
    · rw [if_neg htop, candidates_join _ _ htop (base_ne_root hi hspecifier), List.find?_map]
      simp only [Function.comp_def, hcontains]
  · simp [resolve, hspecifier]

/-- The index file at the top is still found when the top has become a directory. -/
theorem resolve_relocated_top :
    let files : List SourceFile := [.of "./src//a.ts" "", .of "index.ts" ""]
    let r := resolverFor .empty files .virtual ["ts"]
    let moved := resolverFor .empty (files.map (·.relocate "../pkg")) .virtual ["ts"]
    base "src\\a.ts" ".." = "" ∧ r.resolve "src\\a.ts" ".." = some "index.ts" ∧
      moved.resolve ("../pkg" ++ "/" ++ "src\\a.ts") ".." = some "../pkg/index.ts" := by
  intro files r moved
  have hfound : r.resolve "src\\a.ts" ".." = some "index.ts" := by decide +kernel
  have hfiles : ∀ f ∈ files, IsInner f.id := by
    intro f hf
    rcases List.mem_pair.mp hf with rfl | rfl
    · exact ⟨by decide +kernel, by decide +kernel, by decide +kernel⟩
    · exact ⟨by decide +kernel, by decide +kernel, by decide +kernel⟩
  refine ⟨by decide +kernel, hfound, ?_⟩
  rw [resolve_relocated .empty ["ts"] (by decide +kernel) (by decide) (by decide) hfiles
    ⟨by decide +kernel, by decide +kernel, by decide +kernel⟩ (by decide +kernel), hfound]
  rfl

end Resolver

end ScriptAtlas
