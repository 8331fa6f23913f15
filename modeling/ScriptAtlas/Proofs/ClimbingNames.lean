import ScriptAtlas.Proofs.ImporterDirectory

/-! # Names that climb above the root

A relative name may lead above the place where all paths start. The path tried then opens with a
`..` segment, and so do the index files below it. There is one exception: if nothing follows the
`..`, an extension put behind it goes to that segment and makes a file name of three dots and more.
So a name that climbs finds nothing unless a file is named like that (`resolve_climbing`). -/

namespace ScriptAtlas

open ScriptAtlas.Path

namespace Path

variable {path : String}

/-! ### Paths that climb -/

/-- A path that climbs is `..`, or goes on behind it with a slash. -/
theorem climbs_iff_eq_or : Climbs path ↔ path = ".." ∨ ∃ rest, path = "../" ++ rest := by
  rw [climbs_iff_takeWhile]
  constructor
  · intro h
    have hchars := List.takeWhile_append_dropWhile (p := (· ≠ '/')) (l := path.toList)
    rw [h] at hchars
    cases hrest : path.toList.dropWhile (· ≠ '/') with
    | nil =>
      rw [hrest] at hchars
      exact Or.inl (String.toList_inj.mp hchars.symm)
    | cons c rest =>
      have hslash : c = '/' := by
        have := List.head?_dropWhile_not (p := (· ≠ '/')) (l := path.toList)
        rw [hrest] at this
        simpa using this
      rw [hrest, hslash] at hchars
      refine Or.inr ⟨String.ofList rest, String.toList_inj.mp ?_⟩
      simpa [dotDot] using hchars.symm
  · rintro (rfl | ⟨rest, rfl⟩)
    · decide
    · simp [dotDot]

theorem climbs_append {rest : String} (h : Climbs path) (hne : path ≠ "..") :
    Climbs (path ++ rest) := by
  obtain ⟨behind, rfl⟩ := (climbs_iff_eq_or.mp h).resolve_left hne
  exact climbs_iff_eq_or.mpr (Or.inr ⟨behind ++ rest, String.append_assoc ..⟩)

theorem climbs_append_slash (h : Climbs path) (rest : String) : Climbs (path ++ ("/" ++ rest)) := by
  rcases climbs_iff_eq_or.mp h with rfl | ⟨behind, rfl⟩
  · exact climbs_iff_eq_or.mpr (Or.inr ⟨rest, rfl⟩)
  · exact climbs_iff_eq_or.mpr (Or.inr ⟨behind ++ ("/" ++ rest), String.append_assoc ..⟩)

end Path

/-! ### What is found -/

namespace Resolver

variable {extensions : List String} {path importer specifier : String} {known : String → Bool}

/-- Where no path that climbs is known, only three dots and an extension are found from one. -/
theorem find?_candidates_of_climbs (hknown : ∀ target, Climbs target → known target = false)
    (h : Climbs path) :
    (candidates extensions path).find? known =
      if path = ".." then (extensions.map ("..." ++ ·)).find? known else none := by
  have hplain : ¬ ((path = "" || path = "/") = true) := by
    have hne : path ≠ "" ∧ path ≠ "/" := by
      constructor <;> (rintro rfl; revert h; decide)
    simpa using hne
  have hindex : (indexFiles extensions (path ++ "/")).find? known = none := by
    refine List.find?_eq_none.mpr fun target htarget => ?_
    obtain ⟨e, -, rfl⟩ := List.mem_map.mp htarget
    rw [String.append_assoc, String.append_assoc, hknown _ (climbs_append_slash h _)]
    exact Bool.false_ne_true
  rw [candidates, if_neg hplain, List.cons_append, List.find?_cons_of_neg (by simp [hknown _ h]),
    List.find?_append, hindex, Option.or_none]
  by_cases hdots : path = ".."
  · rw [if_pos hdots, hdots]
    rfl
  · rw [if_neg hdots]
    refine List.find?_eq_none.mpr fun target htarget => ?_
    obtain ⟨e, -, rfl⟩ := List.mem_map.mp htarget
    rw [String.append_assoc, hknown _ (climbs_append h hdots)]
    exact Bool.false_ne_true

variable {tree : FileTree} {files : List SourceFile}

theorem contains_virtual_iff {target : String} :
    (resolverFor tree files .virtual extensions).contains target = true ↔
      ∃ f ∈ files, Path.normalize f.id = target := by
  simp [resolverFor, Resolver.of]

/-- **A name that climbs above the root finds nothing, but for files named by three dots and an
extension.** Among files whose paths do not climb, such a name finds nothing if the path tried goes
on behind the `..` segment. If it is `..` and no more, then what is found is the first file, in the
order of the extensions, whose path is three dots and an extension; there may be one. -/
theorem resolve_climbing (hids : ∀ f ∈ files, ¬ Climbs (Path.normalize f.id))
    (hspecifier : isRelative specifier = true) (hclimbs : Climbs (base importer specifier)) :
    let r := resolverFor tree files .virtual extensions
    (r.resolve importer specifier =
      if base importer specifier = ".." then
        ((bareExtensions extensions).map ("..." ++ ·)).find? r.contains
      else none) ∧
    (r.resolve importer specifier = none ↔
      (base importer specifier = ".." → ∀ e ∈ bareExtensions extensions, ∀ f ∈ files,
        Path.normalize f.id ≠ "..." ++ e)) := by
  intro r
  have hknown : ∀ target, Climbs target → r.contains target = false := by
    intro target htarget
    rw [← Bool.not_eq_true, contains_virtual_iff]
    rintro ⟨f, hf, rfl⟩
    exact hids f hf htarget
  have hresolve : r.resolve importer specifier =
      if base importer specifier = ".." then
        ((bareExtensions extensions).map ("..." ++ ·)).find? r.contains
      else none := by
    rw [resolve, if_pos hspecifier]
    exact find?_candidates_of_climbs hknown hclimbs
  refine ⟨hresolve, ?_⟩
  rw [hresolve]
  by_cases hdots : base importer specifier = ".."
  · rw [if_pos hdots, List.find?_eq_none]
    constructor
    · intro hnone _ e he f hf heq
      exact hnone _ (List.mem_map_of_mem he) (contains_virtual_iff.mpr ⟨f, hf, heq⟩)
    · intro h target htarget hcontains
      obtain ⟨e, he, rfl⟩ := List.mem_map.mp htarget
      obtain ⟨f, hf, heq⟩ := contains_virtual_iff.mp hcontains
      exact h hdots e he f hf heq
  · simp [hdots]

/-- Two levels up from a file one directory down: with a name for something there, and without. -/
theorem resolve_climbing_two_levels :
    let files : List SourceFile := [.of "src/b.ts" "", .of "x.ts" "", .of "...js" ""]
    let r := resolverFor .empty files .virtual ["ts", ".js"]
    (∀ f ∈ files, ¬ Climbs (Path.normalize f.id)) ∧ base "src/b.ts" "../../x" = "../x" ∧
      r.resolve "src/b.ts" "../../x" = none ∧ base "src/b.ts" "../.." = ".." ∧
      r.resolve "src/b.ts" "../.." = some "...js" := by
  intro files r
  have hids : ∀ f ∈ files, ¬ Climbs (Path.normalize f.id) := by decide +kernel
  have habove : base "src/b.ts" "../../x" = "../x" := by decide +kernel
  have hdots : base "src/b.ts" "../.." = ".." := by decide +kernel
  have hclimbs : Climbs (base "src/b.ts" "../../x") := by decide +kernel
  have hclimbs' : Climbs (base "src/b.ts" "../..") := by decide +kernel
  have hnone : r.resolve "src/b.ts" "../../x" =
      if base "src/b.ts" "../../x" = ".." then
        ((bareExtensions ["ts", ".js"]).map ("..." ++ ·)).find? r.contains
      else none := (resolve_climbing hids (by decide) hclimbs).1
  have hfound : r.resolve "src/b.ts" "../.." =
      if base "src/b.ts" "../.." = ".." then
        ((bareExtensions ["ts", ".js"]).map ("..." ++ ·)).find? r.contains
      else none := (resolve_climbing hids (by decide) hclimbs').1
  refine ⟨hids, habove, ?_, hdots, ?_⟩
  · rw [hnone, habove]
    rfl
  · rw [hfound, if_pos hdots]
    decide +kernel

/-- Above the root of a project with a file named by three dots and an extension. -/
theorem resolve_above_root :
    let files : List SourceFile := [.of "a.ts" "", .of "...ts" ""]
    let r := resolverFor .empty files .virtual ({} : GraphOptions).extensions
    (∀ f ∈ files, isAbsolute (Path.normalize f.id).toList = false ∧
      ¬ Climbs (Path.normalize f.id)) ∧
      isRelative ".." = true ∧ Climbs (base "a.ts" "..") ∧
      r.resolve "a.ts" ".." = some "...ts" := by
  decide +kernel

end Resolver

end ScriptAtlas
