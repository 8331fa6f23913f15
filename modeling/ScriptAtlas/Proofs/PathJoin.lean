import Mathlib.Data.List.Induction
import Mathlib.Data.List.TakeWhile
import ScriptAtlas.Proofs.CanonicalPath

/-! # Joining paths

A path behind a directory is read by taking its segments from those of the directory on (`descend`,
`normalize_join`). Segments that never climb above where they start come out the same behind
any directory (`descend_append`), so a path below one place has the same name below another
(`IsInner.normalize_join`). The directory of a path is the path without its last segment
(`parent_render`), except that a file of the root has the empty directory. -/

namespace ScriptAtlas.Path

open Text

variable {absolute : Bool} {dir more segments : List Segment}

/-! ### Texts -/

theorem splitAt_append_cons {α : Type} [DecidableEq α] (sep : α) (xs ys : List α) :
    splitAt sep (xs ++ sep :: ys) = splitAt sep xs ++ splitAt sep ys := by
  rw [splitAt_eq_splitOn, splitAt_eq_splitOn, splitAt_eq_splitOn]
  induction xs with
  | nil => simp [List.splitOn_cons_eq_if_modifyHead]
  | cons x xs ih =>
    rw [List.cons_append, List.splitOn_cons_eq_if_modifyHead,
      List.splitOn_cons_eq_if_modifyHead, ih]
    by_cases hx : x = sep
    · simp [hx]
    · cases hs : xs.splitOn sep with
      | nil => exact absurd hs (List.splitOn_ne_nil sep xs)
      | cons part parts => simp [hx]

theorem slashed_append (xs ys : List Char) : slashed (xs ++ ys) = slashed xs ++ slashed ys :=
  List.map_append

theorem isAbsolute_append {xs : List Char} (h : xs ≠ []) (ys : List Char) :
    isAbsolute (xs ++ ys) = isAbsolute xs := by
  cases xs with
  | nil => exact absurd rfl h
  | cons x xs => rfl

theorem isAbsolute_normalizeChars (cs : List Char) :
    isAbsolute (normalizeChars cs) = isAbsolute (slashed cs) :=
  isAbsolute_render (isCanonical_canonical fun _ => not_mem_of_mem_splitAt_slashed)

theorem isAbsolute_normalize (path : String) :
    isAbsolute (normalize path).toList = isAbsolute (slashed path.toList) := by
  rw [normalize, String.toList_ofList, isAbsolute_normalizeChars]

theorem isAbsolute_slashed_iff {cs : List Char} :
    isAbsolute (slashed cs) = true ↔ cs.head? = some '/' ∨ cs.head? = some '\\' := by
  rw [isAbsolute, decide_eq_true_iff, slashed, List.head?_map]
  cases cs.head? with
  | none => simp
  | some c => by_cases hc : c = '\\' <;> simp [hc]

theorem join_ne_root {d path : String} (h : d ≠ "" ∨ path ≠ "") : d ++ "/" ++ path ≠ "/" := by
  intro heq
  have hlength : (d.toList ++ '/' :: path.toList).length = 1 := by
    simpa using congrArg (·.toList.length) heq
  rw [List.length_append, List.length_cons] at hlength
  rcases h with h | h
  · have hpos : 0 < d.toList.length := List.length_pos_of_ne_nil (by simpa using h)
    omega
  · have hpos : 0 < path.toList.length := List.length_pos_of_ne_nil (by simpa using h)
    omega

/-! ### Climbing -/

theorem push_of_skip {s : Segment} (h : s = [] ∨ s = ['.']) (done : List Segment) :
    push absolute done s = done := if_pos (by simpa using h)

theorem push_dotDot_cons {last : Segment} (h : last ≠ dotDot) (rest : List Segment) :
    push absolute (last :: rest) dotDot = rest := by
  rw [push, if_neg (by decide), if_pos rfl]
  exact if_pos h

theorem push_of_name {s : Segment} (hskip : ¬ (s = [] ∨ s = ['.'])) (hs : s ≠ dotDot)
    (done : List Segment) : push absolute done s = s :: done := by
  unfold push
  rw [if_neg (by simpa using hskip), if_neg hs]

/-- A relative path that has climbed above its start stays there. -/
theorem getLast?_push {done : List Segment} (h : done.getLast? = some dotDot) (s : Segment) :
    (push false done s).getLast? = some dotDot := by
  obtain ⟨last, rest, rfl⟩ := List.exists_cons_of_ne_nil (l := done) (by rintro rfl; simp at h)
  by_cases hskip : s = [] ∨ s = ['.']
  · rwa [push_of_skip hskip]
  by_cases hs : s = dotDot
  · subst hs
    by_cases hlast : last = dotDot
    · subst hlast
      have hpush : push false (dotDot :: rest) dotDot = dotDot :: dotDot :: rest := rfl
      rw [hpush]
      simpa using h
    -- Below the segment taken away there is still the `..` at the bottom.
    · rw [push_dotDot_cons hlast]
      cases rest with
      | nil => exact absurd (by simpa using h) hlast
      | cons t rest => simpa using h
  · rw [push_of_name hskip hs]
    simpa using h

theorem getLast?_foldl_push {done : List Segment} (h : done.getLast? = some dotDot) :
    (more.foldl (push false) done).getLast? = some dotDot := by
  induction more generalizing done with
  | nil => exact h
  | cons s more ih => exact ih (getLast?_push h s)

/-- A segment that does not climb above the start does the same with more segments below. -/
theorem push_append (absolute : Bool) {done : List Segment} (hdone : dotDot ∉ done) {s : Segment}
    (h : s = dotDot → done ≠ []) (below : List Segment) :
    dotDot ∉ push false done s ∧ push absolute (done ++ below) s = push false done s ++ below := by
  by_cases hskip : s = [] ∨ s = ['.']
  · rw [push_of_skip hskip, push_of_skip hskip]
    exact ⟨hdone, rfl⟩
  by_cases hs : s = dotDot
  · subst hs
    obtain ⟨last, rest, rfl⟩ := List.exists_cons_of_ne_nil (h rfl)
    obtain ⟨hlast, hrest⟩ : dotDot ≠ last ∧ dotDot ∉ rest := by simpa using hdone
    rw [List.cons_append, push_dotDot_cons hlast.symm, push_dotDot_cons hlast.symm]
    exact ⟨hrest, rfl⟩
  · rw [push_of_name hskip hs, push_of_name hskip hs]
    exact ⟨by simpa [Ne.symm hs] using hdone, rfl⟩

theorem foldl_push_append (absolute : Bool) {done : List Segment} (hdone : dotDot ∉ done)
    (h : (more.foldl (push false) done).getLast? ≠ some dotDot) (below : List Segment) :
    more.foldl (push absolute) (done ++ below) = more.foldl (push false) done ++ below := by
  induction more generalizing done with
  | nil => rfl
  | cons s more ih =>
    rw [List.foldl_cons] at h
    have hstays : s = dotDot → done ≠ [] := by
      rintro rfl rfl
      have hclimbed : (push false [] dotDot).getLast? = some dotDot := rfl
      exact h (getLast?_foldl_push hclimbed)
    obtain ⟨hpush, hbelow⟩ := push_append absolute hdone hstays below
    rw [List.foldl_cons, List.foldl_cons, hbelow]
    exact ih hpush h

/-! ### Segments behind a directory -/

/-- The segments of a path as they are written. -/
def written (path : String) : List Segment := splitAt '/' (slashed path.toList)

/-- The segments reached from those of a directory by taking more. -/
def descend (absolute : Bool) (dir more : List Segment) : List Segment :=
  (more.foldl (push absolute) dir.reverse).reverse

theorem canonical_append (xs ys : List Segment) :
    canonical absolute (xs ++ ys) = descend absolute (canonical absolute xs) ys := by
  simp only [canonical, descend, List.foldl_append, List.reverse_reverse]

theorem isCanonical_descend (hdir : IsCanonical absolute dir) (path : String) :
    IsCanonical absolute (descend absolute dir (written path)) :=
  isCanonical_foldl_push (by simpa using hdir) fun _ => not_mem_of_mem_splitAt_slashed

theorem isCanonical_written (path : String) :
    IsCanonical absolute (descend absolute [] (written path)) :=
  isCanonical_descend (isCanonical_nil _) path

/-- Segments that end below where they start are the same behind another directory. -/
theorem descend_append (absolute : Bool) (hdir : dotDot ∉ dir)
    (h : (descend false dir more).head? ≠ some dotDot) (above : List Segment) :
    descend absolute (above ++ dir) more = above ++ descend false dir more := by
  rw [descend, List.head?_reverse] at h
  rw [descend, List.reverse_append, foldl_push_append absolute (by simpa using hdir) h, descend,
    List.reverse_append, List.reverse_reverse]

theorem IsCanonical.dotDot_not_mem_of_head? (h : IsCanonical absolute segments)
    (hhead : segments.head? ≠ some dotDot) : dotDot ∉ segments := by
  cases segments with
  | nil => simp
  | cons s segments =>
    rw [List.head?_cons, ne_eq, Option.some.injEq] at hhead
    rintro (_ | ⟨_, hmem⟩)
    · exact hhead rfl
    · exact hhead ((List.pairwise_cons.mp h.climbing).1 dotDot hmem rfl)

/-! ### Paths behind a directory -/

theorem normalize_eq_ofList (path : String) :
    normalize path = String.ofList (render (isAbsolute (slashed path.toList))
      (canonical (isAbsolute (slashed path.toList)) (written path))) := rfl

theorem normalize_of_relative {path : String} (h : isAbsolute (slashed path.toList) = false) :
    normalize path = String.ofList (render false (descend false [] (written path))) := by
  rw [normalize_eq_ofList, h]
  rfl

/-- A path behind another one is read by taking its segments from those of the first on. -/
theorem normalize_append_slash {a : String} (ha : a ≠ "") (b : String) :
    normalize (a ++ "/" ++ b) = String.ofList (render (isAbsolute (slashed a.toList))
      (descend (isAbsolute (slashed a.toList))
        (canonical (isAbsolute (slashed a.toList)) (written a)) (written b))) := by
  have hchars : slashed (a ++ "/" ++ b).toList = slashed a.toList ++ '/' :: slashed b.toList := by
    rw [String.toList_append, String.toList_append, slashed_append, slashed_append,
      List.append_assoc]
    rfl
  have hne : slashed a.toList ≠ [] := by
    rw [slashed, ne_eq, List.map_eq_nil_iff]
    simpa using ha
  have hwritten : written (a ++ "/" ++ b) = written a ++ written b := by
    rw [written, hchars, splitAt_append_cons]
    rfl
  rw [normalize_eq_ofList, hwritten, canonical_append, hchars, isAbsolute_append hne]

/-- A path is read behind a directory by taking its segments from there on. -/
theorem normalize_join (hdir : IsCanonical absolute dir) (hne : dir ≠ []) (path : String) :
    normalize (String.ofList (render absolute dir) ++ "/" ++ path) =
      String.ofList (render absolute (descend absolute dir (written path))) := by
  have hnonempty : String.ofList (render absolute dir) ≠ "" := fun hempty =>
    hne (eq_nil_of_render_eq hdir (Or.inl (by simpa using hempty)))
  have hwritten : canonical absolute (written (String.ofList (render absolute dir))) = dir := by
    rw [written, String.toList_ofList, slashed_render hdir]
    exact canonical_splitAt_render hdir
  rw [normalize_append_slash hnonempty, String.toList_ofList, slashed_render hdir,
    isAbsolute_render hdir, hwritten]

theorem joinSegments_append (hdir : dir ≠ []) (hne : segments ≠ []) :
    joinSegments (dir ++ segments) = joinSegments dir ++ '/' :: joinSegments segments := by
  induction segments using List.reverseRecOn with
  | nil => exact absurd rfl hne
  | append_singleton segments s ih =>
    by_cases hsegments : segments = []
    · rw [hsegments, List.nil_append, joinSegments_concat hdir]
      simp [joinSegments]
    · rw [← List.append_assoc, joinSegments_concat (by simp [hdir]), ih hsegments,
        joinSegments_concat hsegments, List.append_assoc, List.cons_append]

theorem ofList_render_append (absolute : Bool) (hdir : dir ≠ []) (hne : segments ≠ []) :
    String.ofList (render absolute (dir ++ segments)) =
      String.ofList (render absolute dir) ++ "/" ++ String.ofList (render false segments) := by
  cases absolute <;> simp [← String.toList_inj, render, joinSegments_append hdir hne]

/-- A path other than the empty one and the root has segments. -/
theorem exists_segments_of_normalize_eq {path : String} (h : normalize path = path)
    (hempty : path ≠ "") (hroot : path ≠ "/") :
    ∃ absolute segments, path = String.ofList (render absolute segments) ∧
      IsCanonical absolute segments ∧ segments ≠ [] := by
  obtain ⟨absolute, segments, rfl, hcanonical⟩ := exists_render_of_normalize_eq h
  refine ⟨absolute, segments, rfl, hcanonical, ?_⟩
  rintro rfl
  cases absolute
  · exact hempty rfl
  · exact hroot rfl

/-! ### Inner paths -/

/-- Does the path open with a `..` segment? -/
def Climbs (path : String) : Prop := (splitAt '/' path.toList).head? = some dotDot

instance (path : String) : Decidable (Climbs path) := inferInstanceAs (Decidable (_ = _))

theorem splitAt_render (h : IsCanonical false segments) (hne : segments ≠ []) :
    splitAt '/' (render false segments) = segments :=
  splitAt_joinSegments h.slash_not_mem hne

theorem climbs_render (h : IsCanonical false segments) :
    Climbs (String.ofList (render false segments)) ↔ segments.head? = some dotDot := by
  rw [Climbs, String.toList_ofList]
  by_cases hne : segments = []
  · subst hne
    decide
  · rw [splitAt_render h hne]

theorem head?_splitAt (sep : Char) (cs : List Char) :
    (splitAt sep cs).head? = some (cs.takeWhile (· ≠ sep)) := by
  induction cs with
  | nil => rfl
  | cons c cs ih =>
    rw [splitAt]
    by_cases hc : c = sep
    · simp [hc]
    · cases hs : splitAt sep cs with
      | nil => simp [hs] at ih
      | cons part parts =>
        have hpart : part = cs.takeWhile (· ≠ sep) := by simpa [hs] using ih
        simp [hc, hpart]

theorem climbs_iff_takeWhile {path : String} :
    Climbs path ↔ path.toList.takeWhile (· ≠ '/') = dotDot := by
  rw [Climbs, head?_splitAt, Option.some.injEq]

/-- A longer path climbs only if the path does, or if it is still in its first segment and that
becomes `..`. -/
theorem climbs_or_of_climbs_append {path rest : String} (h : Climbs (path ++ rest)) :
    Climbs path ∨ path.toList ++ rest.toList.takeWhile (· ≠ '/') = dotDot := by
  rw [climbs_iff_takeWhile, String.toList_append, List.takeWhile_append] at h
  split at h
  · exact Or.inr h
  · exact Or.inl (climbs_iff_takeWhile.mpr h)

theorem not_climbs_append_slash {path : String} (h : ¬ Climbs path) (rest : String) :
    ¬ Climbs (path ++ ("/" ++ rest)) := by
  intro hclimbs
  rcases climbs_or_of_climbs_append hclimbs with hpath | hpath
  · exact h hpath
  · have hdots : path.toList = dotDot := by simpa using hpath
    exact h (climbs_iff_takeWhile.mpr (by rw [hdots]; rfl))

theorem not_climbs_append_dot {path ext : String} (h : ¬ Climbs path) (hempty : path ≠ "")
    (hext : ext ≠ "") (hslash : '/' ∉ ext.toList) : ¬ Climbs (path ++ ("." ++ ext)) := by
  intro hclimbs
  rcases climbs_or_of_climbs_append hclimbs with hpath | hpath
  · exact h hpath
  · have htake : ("." ++ ext).toList.takeWhile (· ≠ '/') = '.' :: ext.toList := by
      rw [List.takeWhile_eq_self_iff.mpr]
      · simp
      · intro c hc
        have hne : c ≠ '/' := ne_of_mem_of_not_mem hc (by simpa using hslash)
        simpa using hne
    -- The first segment would have at least three characters.
    have hlength := congrArg List.length (htake ▸ hpath)
    have hpos : 0 < path.toList.length := List.length_pos_of_ne_nil (by simpa using hempty)
    have hpos' : 0 < ext.toList.length := List.length_pos_of_ne_nil (by simpa using hext)
    simp only [List.length_append, List.length_cons, dotDot, List.length_nil] at hlength
    omega

/-- A relative path of something below the place where it starts. -/
structure IsInner (path : String) : Prop where
  relative : isAbsolute (normalize path).toList = false
  ne_empty : normalize path ≠ ""
  not_climbs : ¬ Climbs (normalize path)

namespace IsInner

variable {path : String}

theorem normalize_eq (h : IsInner path) :
    normalize path = String.ofList (render false (descend false [] (written path))) := by
  refine normalize_of_relative ?_
  rw [← isAbsolute_normalizeChars]
  simpa [normalize] using h.relative

theorem segments_ne_nil (h : IsInner path) : descend false [] (written path) ≠ [] := fun hnil =>
  h.ne_empty (by rw [h.normalize_eq, hnil]; rfl)

theorem head?_segments (h : IsInner path) :
    (descend false [] (written path)).head? ≠ some dotDot := fun hhead =>
  h.not_climbs <| by
    rw [h.normalize_eq, climbs_render (isCanonical_written _)]
    exact hhead

theorem dotDot_not_mem (h : IsInner path) : dotDot ∉ descend false [] (written path) :=
  (isCanonical_written _).dotDot_not_mem_of_head? h.head?_segments

/-- A path below one place has the same name below another. -/
theorem normalize_join (h : IsInner path) (hdir : IsCanonical absolute dir) (hne : dir ≠ []) :
    normalize (String.ofList (render absolute dir) ++ "/" ++ path) =
      String.ofList (render absolute (dir ++ descend false [] (written path))) := by
  rw [Path.normalize_join hdir hne,
    ← descend_append absolute (List.not_mem_nil) h.head?_segments dir, List.append_nil]

end IsInner

/-! ### The directory of a path -/

theorem parentChars_append {file : List Char} (h : '/' ∉ file) (xs : List Char) :
    parentChars (xs ++ '/' :: file) = xs := by
  have hdrop : (file.reverse ++ '/' :: xs.reverse).dropWhile (· ≠ '/') = '/' :: xs.reverse := by
    rw [List.dropWhile_append_of_pos]
    · simp
    · intro c hc
      have hne : c ≠ '/' := ne_of_mem_of_not_mem (List.mem_reverse.mp hc) h
      simpa using hne
  rw [parentChars, List.reverse_append, List.reverse_cons, List.append_assoc, List.singleton_append,
    hdrop, List.drop_one, List.tail_cons, List.reverse_reverse]

theorem parentChars_of_not_mem {cs : List Char} (h : '/' ∉ cs) : parentChars cs = [] := by
  have hdrop : cs.reverse.dropWhile (· ≠ '/') = [] := by
    rw [List.dropWhile_eq_nil_iff]
    intro c hc
    have hne : c ≠ '/' := ne_of_mem_of_not_mem (List.mem_reverse.mp hc) h
    simpa using hne
  rw [parentChars, hdrop]
  rfl

/-- The directory of a path is the path without its last segment; if nothing is left it is empty. -/
theorem parent_render (h : IsCanonical absolute segments) :
    parent (String.ofList (render absolute segments)) =
      if segments.dropLast = [] then "" else String.ofList (render absolute segments.dropLast) := by
  rcases List.eq_nil_or_concat segments with rfl | ⟨dir, file, rfl⟩
  · cases absolute <;> rfl
  rw [List.concat_eq_append] at h ⊢
  have hfile : '/' ∉ file := h.slash_not_mem file (by simp)
  rw [List.dropLast_concat, parent, String.toList_ofList]
  by_cases hdir : dir = []
  · subst hdir
    cases absolute with
    | false => rw [parentChars_of_not_mem (by simpa [render, joinSegments] using hfile), if_pos rfl]
    | true =>
      have hrender : render true ([] ++ [file]) = [] ++ '/' :: file := by
        simp [render, joinSegments]
      rw [hrender, parentChars_append hfile, if_pos rfl]
  · rw [render_concat absolute hdir, parentChars_append hfile, if_neg hdir]

theorem IsCanonical.dropLast (h : IsCanonical absolute segments) :
    IsCanonical absolute segments.dropLast := by
  rcases List.eq_nil_or_concat segments with rfl | ⟨dir, file, rfl⟩
  · exact h
  · rw [List.concat_eq_append] at h ⊢
    rw [List.dropLast_concat]
    exact h.left

theorem ofList_render_eq_empty_iff (h : IsCanonical absolute segments) :
    String.ofList (render absolute segments) = "" ↔ absolute = false ∧ segments = [] := by
  constructor
  · intro hempty
    have hnil : render absolute segments = [] := by simpa using hempty
    refine ⟨?_, eq_nil_of_render_eq h (Or.inl hnil)⟩
    cases absolute with
    | false => rfl
    | true => simp [render] at hnil
  · rintro ⟨rfl, rfl⟩
    rfl

end ScriptAtlas.Path
