import ScriptAtlas.Proofs.ImporterDirectory

/-! # Spellings of a path

Two spellings of a relative path have the same canonical form, and behind any directory they still
name the same place. Segments do to a stack what their canonical form does: one more segment keeps
this (`foldl_push_push`), so it holds of all of them (`descend_canonical`), whether the stack stops
at the root or climbs. So the canonical form of a joined path depends only on those of its parts
(`normalize_join_normalize`), and what a name resolves to depends only on its canonical form and on
the directory of the importer (`resolve_eq_of_normalize_eq`). -/

namespace ScriptAtlas.Path

open Text

variable {segments : List Segment}

/-! ### Segments and their canonical form -/

/-- Taking the segments so far and then one more is taking what it makes of them. -/
theorem foldl_push_push (absolute : Bool) {done : List Segment}
    (h : IsCanonical false done.reverse) (s : Segment) (dir : List Segment) :
    (push false done s).reverse.foldl (push absolute) dir =
      push absolute (done.reverse.foldl (push absolute) dir) s := by
  have hput : (s :: done).reverse.foldl (push absolute) dir =
      push absolute (done.reverse.foldl (push absolute) dir) s := by
    rw [List.reverse_cons, List.foldl_append]
    rfl
  by_cases hskip : s = [] ∨ s = ['.']
  · rw [push_of_skip hskip, push_of_skip hskip]
  by_cases hs : s = dotDot
  · subst hs
    cases done with
    | nil => rfl
    | cons last rest =>
      by_cases hlast : last = dotDot
      · subst hlast
        exact hput
      -- The segment that goes was put on by `last`, which is a name.
      · have hmem : last ∈ (last :: rest).reverse := by simp
        have hname : ¬ (last = [] ∨ last = ['.']) :=
          not_or.mpr ⟨h.ne_nil last hmem, h.ne_dot last hmem⟩
        rw [push_dotDot_cons hlast, List.reverse_cons, List.foldl_append, List.foldl_cons,
          List.foldl_nil, push_of_name hname hlast, push_dotDot_cons hlast]
  · rw [push_of_name hskip hs]
    exact hput

/-- From any directory on, segments lead where their canonical form leads. -/
theorem descend_canonical (absolute : Bool) (dir : List Segment)
    (hs : ∀ s ∈ segments, '/' ∉ s ∧ '\\' ∉ s) :
    descend absolute dir (canonical false segments) = descend absolute dir segments := by
  unfold descend
  congr 1
  induction segments using List.reverseRecOn with
  | nil => rfl
  | append_singleton segments s ih =>
    have hbefore : ∀ t ∈ segments, '/' ∉ t ∧ '\\' ∉ t := fun t ht =>
      hs t (List.mem_append_left _ ht)
    have hcanonical : IsCanonical false (segments.foldl (push false) []).reverse :=
      isCanonical_canonical hbefore
    have hlast : canonical false (segments ++ [s]) =
        (push false (segments.foldl (push false) []) s).reverse := by
      rw [canonical, List.foldl_append]
      rfl
    rw [hlast, foldl_push_push absolute hcanonical s, List.foldl_append]
    exact congrArg (push absolute · s) (ih hbefore)

/-! ### Joined paths -/

theorem slashed_normalize (path : String) :
    slashed (normalize path).toList = (normalize path).toList := by
  rw [normalize_eq_ofList, String.toList_ofList]
  exact slashed_render (isCanonical_written path)

theorem isAbsolute_slashed_normalize (path : String) :
    isAbsolute (slashed (normalize path).toList) = isAbsolute (slashed path.toList) := by
  rw [slashed_normalize, isAbsolute_normalize]

theorem canonical_written_normalize (path : String) :
    canonical (isAbsolute (slashed path.toList)) (written (normalize path)) =
      canonical (isAbsolute (slashed path.toList)) (written path) := by
  rw [written, slashed_normalize, normalize_eq_ofList, String.toList_ofList]
  exact canonical_splitAt_render (isCanonical_written path)

/-- The segments of the canonical form are the canonical segments, but for an empty one. -/
theorem descend_written_normalize (absolute : Bool) (dir : List Segment) {path : String}
    (h : isAbsolute (slashed path.toList) = false) :
    descend absolute dir (written (normalize path)) = descend absolute dir (written path) := by
  have hsegments : ∀ s ∈ written path, '/' ∉ s ∧ '\\' ∉ s := fun _ =>
    not_mem_of_mem_splitAt_slashed
  have hwritten : written (normalize path) =
      splitAt '/' (render false (canonical false (written path))) := by
    rw [written, slashed_normalize, normalize_eq_ofList, String.toList_ofList, h]
  rw [hwritten, ← descend_canonical absolute dir hsegments]
  by_cases hnil : canonical false (written path) = []
  · rw [hnil]
    rfl
  · rw [splitAt_render (isCanonical_canonical hsegments) hnil]

/-- The canonical form of a joined path depends only on those of its parts. -/
theorem normalize_join_normalize {a b : String} (ha : normalize a ≠ "")
    (hb : isAbsolute (slashed b.toList) = false) :
    normalize (a ++ "/" ++ b) = normalize (normalize a ++ "/" ++ normalize b) := by
  have hne : a ≠ "" := by
    rintro rfl
    exact ha rfl
  rw [normalize_append_slash hne, normalize_append_slash ha, isAbsolute_slashed_normalize,
    canonical_written_normalize, descend_written_normalize _ _ hb]

-- The first part must not vanish, for the second part would then become absolute.
example : normalize ("." ++ "/" ++ "x") ≠ normalize (normalize "." ++ "/" ++ normalize "x") := by
  decide +kernel

-- Nor may the second part be absolute, since `..` stops at the root before it is joined.
example : normalize ("a" ++ "/" ++ "/../x") ≠
    normalize (normalize "a" ++ "/" ++ normalize "/../x") := by
  decide +kernel

theorem normalize_join_congr {a b b' : String} (ha : a ≠ "")
    (hb : isAbsolute (slashed b.toList) = false) (hb' : isAbsolute (slashed b'.toList) = false)
    (h : normalize b = normalize b') : normalize (a ++ "/" ++ b) = normalize (a ++ "/" ++ b') := by
  rw [normalize_append_slash ha, normalize_append_slash ha, ← descend_written_normalize _ _ hb, h,
    descend_written_normalize _ _ hb']

end ScriptAtlas.Path

namespace ScriptAtlas.Resolver

open ScriptAtlas.Path

variable {importer importer' specifier specifier' : String}

/-! ### Names in a file -/

theorem base_eq_of_normalize_eq
    (hdir : parent (Path.normalize importer) = parent (Path.normalize importer'))
    (hs : isRelative specifier = true) (hs' : isRelative specifier' = true)
    (h : Path.normalize specifier = Path.normalize specifier') :
    base importer specifier = base importer' specifier' := by
  unfold base
  rw [← hdir]
  by_cases hempty : parent (Path.normalize importer) = ""
  · simpa only [if_pos hempty] using h
  · simpa only [if_neg hempty] using normalize_join_congr hempty
      (isAbsolute_slashed_of_isRelative hs) (isAbsolute_slashed_of_isRelative hs') h

theorem resolve_eq_of_normalize_eq (r : Resolver)
    (hdir : parent (Path.normalize importer) = parent (Path.normalize importer'))
    (hs : isRelative specifier = true) (hs' : isRelative specifier' = true)
    (h : Path.normalize specifier = Path.normalize specifier') :
    r.resolve importer specifier = r.resolve importer' specifier' := by
  rw [resolve, resolve, if_pos hs, if_pos hs', base_eq_of_normalize_eq hdir hs hs' h]

/-- **Spelling does not matter.** The canonical form of a joined path is that of its joined
canonical parts, if the first is not empty and the second is relative. So in files of one directory,
relative names with the same canonical form resolve alike. -/
theorem joining_respects_spelling :
    (∀ a b : String, Path.normalize a ≠ "" →
      b.toList.head? ≠ some '/' → b.toList.head? ≠ some '\\' →
      Path.normalize (a ++ "/" ++ b) =
        Path.normalize (Path.normalize a ++ "/" ++ Path.normalize b)) ∧
    ∀ (r : Resolver) (importer importer' specifier specifier' : String),
      parent (Path.normalize importer) = parent (Path.normalize importer') →
      isRelative specifier = true → isRelative specifier' = true →
      Path.normalize specifier = Path.normalize specifier' →
      r.resolve importer specifier = r.resolve importer' specifier' := by
  refine ⟨fun a b ha hslash hback => normalize_join_normalize ha ?_, ?_⟩
  · rw [Bool.eq_false_iff, ne_eq, isAbsolute_slashed_iff, not_or]
    exact ⟨hslash, hback⟩
  · intro r importer importer' specifier specifier' hdir hs hs' h
    exact resolve_eq_of_normalize_eq r hdir hs hs' h

/-- Both operands climb, and the names lead out of the directory and down again. -/
theorem joining_respects_spelling_climbing :
    let r := resolverFor .empty [.of "src\\lib\\..\\b.ts" "", .of "q//c.ts" ""] .virtual [".ts"]
    Path.normalize "x\\..\\.." = ".." ∧ Path.normalize ".\\y/../../z" = "../z" ∧
      Path.normalize ("x\\..\\.." ++ "/" ++ ".\\y/../../z") =
        Path.normalize (".." ++ "/" ++ "../z") ∧
      r.resolve "./src//a.ts" "./lib/../../q/./c" = some "q/c.ts" ∧
      r.resolve "src\\lib/../b.ts" "../q\\c" = some "q/c.ts" := by
  intro r
  obtain ⟨hjoin, hresolve⟩ := joining_respects_spelling
  have ha : Path.normalize "x\\..\\.." = ".." := by decide +kernel
  have hb : Path.normalize ".\\y/../../z" = "../z" := by decide +kernel
  have hjoined := hjoin "x\\..\\.." ".\\y/../../z" (by rw [ha]; decide) (by decide) (by decide)
  rw [ha, hb] at hjoined
  have hfound : r.resolve "./src//a.ts" "./lib/../../q/./c" = some "q/c.ts" := by decide +kernel
  have halike := hresolve r "./src//a.ts" "src\\lib/../b.ts" "./lib/../../q/./c" "../q\\c"
    (by decide +kernel) (by decide) (by decide) (by decide +kernel)
  exact ⟨ha, hb, hjoined, hfound, halike ▸ hfound⟩

end ScriptAtlas.Resolver
