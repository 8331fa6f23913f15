import Mathlib.Data.List.Basic
import ScriptAtlas.Path

/-! # Canonical paths

A path in canonical form is written from segments (`render`) that are neither empty nor `.`, and `..`
stands only at the start of a relative path (`IsCanonical`). Bringing a path to canonical form gives
such a path (`normalizeChars_eq_render`) and leaves such a path as it is (`normalizeChars_render`),
so doing it twice is doing it once. A file beside or below such a path has such a path again. -/

namespace ScriptAtlas.Path

open Text

/-! ### Splitting and joining -/

section Separators

variable {α : Type} [DecidableEq α] {sep : α}

theorem splitAt_eq_splitOn (sep : α) (cs : List α) : splitAt sep cs = cs.splitOn sep := by
  induction cs with
  | nil => rfl
  | cons c cs ih =>
    rw [splitAt, ih, List.splitOn_cons_eq_if_modifyHead]
    by_cases h : c = sep
    · simp [h]
    · cases hs : cs.splitOn sep with
      | nil => exact absurd hs (List.splitOn_ne_nil sep cs)
      | cons part parts => simp [h]

theorem splitAt_intercalate {parts : List (List α)} (h : ∀ part ∈ parts, sep ∉ part)
    (hne : parts ≠ []) : splitAt sep ([sep].intercalate parts) = parts := by
  rw [splitAt_eq_splitOn]
  exact List.splitOn_intercalate sep h hne

theorem mem_splitAt {cs part : List α} (h : part ∈ splitAt sep cs) :
    sep ∉ part ∧ ∀ c ∈ part, c ∈ cs := by
  induction cs generalizing part with
  | nil =>
    obtain rfl : part = [] := by simpa [splitAt] using h
    simp
  | cons d cs ih =>
    have hrest : ∀ p ∈ splitAt sep cs, sep ∉ p ∧ ∀ c ∈ p, c ∈ d :: cs := fun p hp =>
      ⟨(ih hp).1, fun c hc => List.mem_cons_of_mem _ ((ih hp).2 c hc)⟩
    rw [splitAt] at h
    by_cases hd : d = sep
    · rw [if_pos hd] at h
      rcases List.mem_cons.mp h with rfl | h
      · simp
      · exact hrest part h
    · rw [if_neg hd] at h
      cases hs : splitAt sep cs with
      | nil =>
        obtain rfl : part = [d] := by simpa [hs] using h
        simp [Ne.symm hd]
      | cons p parts =>
        rw [hs] at h
        rcases List.mem_cons.mp h with rfl | h
        · have hp := hrest p (by simp [hs])
          simpa [Ne.symm hd] using hp
        · exact hrest part (by simp [hs, h])

end Separators

theorem splitAt_joinSegments {segments : List Segment} (h : ∀ s ∈ segments, '/' ∉ s)
    (hne : segments ≠ []) : splitAt '/' (joinSegments segments) = segments :=
  splitAt_intercalate h hne

theorem mem_intercalate {α : Type} {sep : List α} {parts : List (List α)} {a : α}
    (h : a ∈ sep.intercalate parts) : a ∈ sep ∨ ∃ part ∈ parts, a ∈ part := by
  induction parts with
  | nil => simp at h
  | cons part parts ih =>
    cases parts with
    | nil => exact Or.inr ⟨part, by simp, by simpa using h⟩
    | cons other parts =>
      rw [List.intercalate_cons_cons] at h
      simp only [List.mem_append] at h
      rcases h with (h | h) | h
      · exact Or.inr ⟨part, by simp, h⟩
      · exact Or.inl h
      · exact (ih h).imp_right fun ⟨u, hu, ha⟩ => ⟨u, List.mem_cons_of_mem _ hu, ha⟩

theorem mem_joinSegments {c : Char} {segments : List Segment} (h : c ∈ joinSegments segments) :
    c = '/' ∨ ∃ s ∈ segments, c ∈ s :=
  (mem_intercalate h).imp_left List.mem_singleton.mp

theorem joinSegments_concat {segments : List Segment} (h : segments ≠ []) (s : Segment) :
    joinSegments (segments ++ [s]) = joinSegments segments ++ '/' :: s := by
  unfold joinSegments
  induction segments with
  | nil => exact absurd rfl h
  | cons t segments ih =>
    cases segments with
    | nil => simp [List.intercalate_cons_cons]
    | cons u segments =>
      have hu : u :: segments ≠ [] := List.cons_ne_nil _ _
      rw [List.cons_append, List.intercalate_cons_of_ne_nil (by simp), ih hu,
        List.intercalate_cons_of_ne_nil hu, List.append_assoc, List.append_assoc, List.append_assoc]

/-- What follows a path goes to its last segment. -/
theorem joinSegments_append_last (segments : List Segment) (s t : Segment) :
    joinSegments (segments ++ [s]) ++ t = joinSegments (segments ++ [s ++ t]) := by
  by_cases h : segments = []
  · simp [h, joinSegments]
  · rw [joinSegments_concat h, joinSegments_concat h, List.append_assoc, List.cons_append]

/-! ### Canonical segments -/

/-- Segments of a path in canonical form. -/
structure IsCanonical (absolute : Bool) (segments : List Segment) : Prop where
  ne_nil : ∀ s ∈ segments, s ≠ []
  ne_dot : ∀ s ∈ segments, s ≠ ['.']
  slash_not_mem : ∀ s ∈ segments, '/' ∉ s
  backslash_not_mem : ∀ s ∈ segments, '\\' ∉ s
  /-- Before `..` there is only `..`. -/
  climbing : segments.Pairwise fun s t => t = dotDot → s = dotDot
  dotDot_not_mem : absolute = true → dotDot ∉ segments

variable {absolute : Bool} {segments : List Segment}

theorem isCanonical_nil (absolute : Bool) : IsCanonical absolute [] := by
  constructor <;> simp

theorem IsCanonical.left {rest : List Segment} (h : IsCanonical absolute (segments ++ rest)) :
    IsCanonical absolute segments where
  ne_nil t ht := h.ne_nil t (by simp [ht])
  ne_dot t ht := h.ne_dot t (by simp [ht])
  slash_not_mem t ht := h.slash_not_mem t (by simp [ht])
  backslash_not_mem t ht := h.backslash_not_mem t (by simp [ht])
  climbing := (List.pairwise_append.mp h.climbing).1
  dotDot_not_mem ha hd := h.dotDot_not_mem ha (by simp [hd])

theorem IsCanonical.concat {s : Segment} (h : IsCanonical absolute segments) (hnil : s ≠ [])
    (hdot : s ≠ ['.']) (hslash : '/' ∉ s) (hback : '\\' ∉ s)
    (hclimb : s = dotDot → absolute = false ∧ ∀ t ∈ segments, t = dotDot) :
    IsCanonical absolute (segments ++ [s]) := by
  refine ⟨?_, ?_, ?_, ?_, ?_, ?_⟩
  · simpa [or_imp, forall_and] using ⟨h.ne_nil, hnil⟩
  · simpa [or_imp, forall_and] using ⟨h.ne_dot, hdot⟩
  · simpa [or_imp, forall_and] using ⟨h.slash_not_mem, hslash⟩
  · simpa [or_imp, forall_and] using ⟨h.backslash_not_mem, hback⟩
  · refine List.pairwise_append.mpr ⟨h.climbing, List.pairwise_singleton _ _, ?_⟩
    intro t ht u hu hd
    rw [List.mem_singleton] at hu
    exact (hclimb (hu ▸ hd)).2 t ht
  · intro ha hd
    rcases List.mem_append.mp hd with hd | hd
    · exact h.dotDot_not_mem ha hd
    · have := (hclimb (List.mem_singleton.mp hd).symm).1
      simp [ha] at this

/-! ### Taking segments -/

/-- One more segment keeps the form. -/
theorem isCanonical_push {done : List Segment} (h : IsCanonical absolute done.reverse)
    {s : Segment} (hslash : '/' ∉ s) (hback : '\\' ∉ s) :
    IsCanonical absolute (push absolute done s).reverse := by
  unfold push
  by_cases hskip : s = [] ∨ s = ['.']
  · rw [if_pos (by simpa using hskip)]
    exact h
  rw [if_neg (by simpa using hskip)]
  rw [not_or] at hskip
  by_cases hd : s = dotDot
  · rw [if_pos hd]
    cases done with
    | nil =>
      by_cases ha : absolute = true
      · rw [if_pos ha]; exact h
      · rw [if_neg ha]
        exact (isCanonical_nil absolute).concat (by decide) (by decide) (by decide) (by decide)
          fun _ => ⟨by simpa using ha, by simp⟩
    | cons last rest =>
      rw [List.reverse_cons] at h
      by_cases hl : last = dotDot
      -- Only a relative path can end in `..`, and then it has nothing else.
      · have hrest : ∀ t ∈ rest.reverse ++ [last], t = dotDot := by
          intro t ht
          rcases List.mem_append.mp ht with ht | ht
          · exact (List.pairwise_append.mp h.climbing).2.2 t ht last (by simp) hl
          · exact (List.mem_singleton.mp ht).trans hl
        have ha : ¬ absolute = true := fun ha => h.dotDot_not_mem ha (by simp [hl])
        simp only [hl, ne_eq, not_true_eq_false, if_false, if_neg ha]
        rw [hl] at h hrest
        rw [List.reverse_cons, List.reverse_cons]
        exact h.concat (by decide) (by decide) (by decide) (by decide)
          fun _ => ⟨by simpa using ha, hrest⟩
      · simp only [ne_eq, hl, not_false_eq_true, if_true]
        exact h.left
  · rw [if_neg hd, List.reverse_cons]
    exact h.concat hskip.1 hskip.2 hslash hback fun hs => absurd hs hd

theorem isCanonical_foldl_push {done : List Segment} (h : IsCanonical absolute done.reverse)
    (hs : ∀ s ∈ segments, '/' ∉ s ∧ '\\' ∉ s) :
    IsCanonical absolute (segments.foldl (push absolute) done).reverse := by
  induction segments generalizing done with
  | nil => exact h
  | cons s segments ih =>
    have hpush := isCanonical_push h (hs s (by simp)).1 (hs s (by simp)).2
    exact ih hpush fun t ht => hs t (List.mem_cons_of_mem _ ht)

theorem isCanonical_canonical (hs : ∀ s ∈ segments, '/' ∉ s ∧ '\\' ∉ s) :
    IsCanonical absolute (canonical absolute segments) :=
  isCanonical_foldl_push (isCanonical_nil absolute) hs

/-- A segment that continues a canonical path is put on as it is. -/
theorem push_of_isCanonical {done : List Segment} {s : Segment}
    (h : IsCanonical absolute (done.reverse ++ [s])) : push absolute done s = s :: done := by
  have hnil := h.ne_nil s (by simp)
  have hdot := h.ne_dot s (by simp)
  unfold push
  rw [if_neg (by simp [hnil, hdot])]
  by_cases hd : s = dotDot
  · have ha : ¬ absolute = true := fun ha => h.dotDot_not_mem ha (by simp [hd])
    have hdone : ∀ t ∈ done, t = dotDot := fun t ht =>
      (List.pairwise_append.mp h.climbing).2.2 t (by simpa using ht) s (by simp) hd
    rw [if_pos hd, hd]
    cases done with
    | nil => simp [ha]
    | cons last rest => simp [hdone last (by simp), ha]
  · rw [if_neg hd]

theorem foldl_push_of_isCanonical {done : List Segment}
    (h : IsCanonical absolute (done.reverse ++ segments)) :
    segments.foldl (push absolute) done = segments.reverse ++ done := by
  induction segments generalizing done with
  | nil => rfl
  | cons s segments ih =>
    rw [List.append_cons] at h
    rw [List.foldl_cons, push_of_isCanonical h.left, ih (by simpa using h)]
    simp

theorem canonical_of_isCanonical (h : IsCanonical absolute segments) :
    canonical absolute segments = segments := by
  have hfold : segments.foldl (push absolute) [] = segments.reverse ++ [] :=
    foldl_push_of_isCanonical (by simpa using h)
  rw [canonical, hfold, List.append_nil, List.reverse_reverse]

/-! ### Paths -/

/-- The path that some segments make. -/
def render (absolute : Bool) (segments : List Segment) : List Char :=
  if absolute then '/' :: joinSegments segments else joinSegments segments

/-- The segments of a path have no slashes of either kind. -/
theorem not_mem_of_mem_splitAt_slashed {cs : List Char} {s : Segment}
    (h : s ∈ splitAt '/' (slashed cs)) : '/' ∉ s ∧ '\\' ∉ s := by
  obtain ⟨hslash, hmem⟩ := mem_splitAt h
  refine ⟨hslash, fun hc => ?_⟩
  obtain ⟨c, -, hc⟩ := List.mem_map.mp (hmem _ hc)
  split at hc <;> simp_all

theorem normalizeChars_eq_render (cs : List Char) :
    ∃ absolute segments, normalizeChars cs = render absolute segments ∧
      IsCanonical absolute segments :=
  ⟨_, _, rfl, isCanonical_canonical fun _ => not_mem_of_mem_splitAt_slashed⟩

theorem backslash_not_mem_render (h : IsCanonical absolute segments) :
    '\\' ∉ render absolute segments := by
  intro hc
  have hjoined : '\\' ∈ joinSegments segments := by
    cases absolute <;> simpa [render] using hc
  rcases mem_joinSegments hjoined with hc | ⟨s, hs, hc⟩
  · exact absurd hc (by decide)
  · exact h.backslash_not_mem s hs hc

theorem slashed_of_not_mem {cs : List Char} (h : '\\' ∉ cs) : slashed cs = cs := by
  refine (List.map_congr_left fun c hc => ?_).trans (List.map_id _)
  exact if_neg (ne_of_mem_of_not_mem hc h)

theorem slashed_render (h : IsCanonical absolute segments) :
    slashed (render absolute segments) = render absolute segments :=
  slashed_of_not_mem (backslash_not_mem_render h)

theorem isAbsolute_render (h : IsCanonical absolute segments) :
    isAbsolute (render absolute segments) = absolute := by
  cases absolute with
  | true => rfl
  | false =>
    match segments, h with
    | [], _ => rfl
    | [] :: _, h => exact absurd rfl (h.ne_nil [] (by simp))
    | (c :: s) :: rest, h =>
      have hc : c ≠ '/' := fun hc => h.slash_not_mem (c :: s) (by simp) (by simp [hc])
      have hhead : (joinSegments ((c :: s) :: rest)).head? = some c := by
        cases rest <;> simp [joinSegments]
      simp [isAbsolute, render, hhead, hc]

/-- Splitting a path in canonical form gives its segments, but for empty ones that are skipped. -/
theorem canonical_splitAt_render (h : IsCanonical absolute segments) :
    canonical absolute (splitAt '/' (render absolute segments)) = segments := by
  have hjoined : canonical absolute (splitAt '/' (joinSegments segments)) = segments := by
    by_cases hne : segments = []
    · subst hne
      rfl
    · rw [splitAt_joinSegments h.slash_not_mem hne, canonical_of_isCanonical h]
  cases absolute with
  | false => exact hjoined
  | true => exact hjoined

/-- A path in canonical form stays as it is. -/
theorem normalizeChars_render (h : IsCanonical absolute segments) :
    normalizeChars (render absolute segments) = render absolute segments := by
  simp only [normalizeChars, slashed_render h, isAbsolute_render h, canonical_splitAt_render h]
  rfl

theorem normalize_render (h : IsCanonical absolute segments) :
    normalize (String.ofList (render absolute segments)) =
      String.ofList (render absolute segments) := by
  rw [normalize, String.toList_ofList, normalizeChars_render h]

theorem normalize_normalize (path : String) : normalize (normalize path) = normalize path := by
  obtain ⟨absolute, segments, hrender, h⟩ := normalizeChars_eq_render path.toList
  rw [normalize.eq_def path, hrender]
  exact normalize_render h

theorem exists_render_of_normalize_eq {path : String} (h : normalize path = path) :
    ∃ absolute segments, path = String.ofList (render absolute segments) ∧
      IsCanonical absolute segments := by
  obtain ⟨absolute, segments, hrender, hcanonical⟩ := normalizeChars_eq_render path.toList
  rw [normalize, hrender] at h
  exact ⟨absolute, segments, h.symm, hcanonical⟩

/-! ### Files beside and below a path -/

/-- A name of three or more characters is neither empty nor `.` nor `..`. -/
theorem IsCanonical.concat_long {s : Segment} (h : IsCanonical absolute segments)
    (hlength : 3 ≤ s.length) (hslash : '/' ∉ s) (hback : '\\' ∉ s) :
    IsCanonical absolute (segments ++ [s]) := by
  refine h.concat ?_ ?_ hslash hback fun hd => ?_
  · rintro rfl
    simp at hlength
  · rintro rfl
    simp at hlength
  · rw [hd] at hlength
    simp [dotDot] at hlength

theorem render_append_last (absolute : Bool) (segments : List Segment) (s t : Segment) :
    render absolute (segments ++ [s]) ++ t = render absolute (segments ++ [s ++ t]) := by
  cases absolute <;> simp [render, ← joinSegments_append_last]

theorem render_concat (absolute : Bool) (h : segments ≠ []) (s : Segment) :
    render absolute (segments ++ [s]) = render absolute segments ++ '/' :: s := by
  cases absolute <;> simp [render, joinSegments_concat h]

/-- Only the empty path and the root have no segments. -/
theorem eq_nil_of_render_eq (h : IsCanonical absolute segments)
    (hroot : render absolute segments = [] ∨ render absolute segments = ['/']) : segments = [] := by
  have hsplit := canonical_splitAt_render h
  rcases hroot with hroot | hroot <;> rw [hroot] at hsplit <;> exact hsplit.symm

/-- A path with an extension is in canonical form if it was without. -/
theorem normalize_addExtension {path ext : String} (hpath : normalize path = path)
    (hempty : path ≠ "") (hroot : path ≠ "/") (hne : ext ≠ "") (hslash : '/' ∉ ext.toList)
    (hback : '\\' ∉ ext.toList) : normalize (path ++ "." ++ ext) = path ++ "." ++ ext := by
  obtain ⟨absolute, segments, rfl, h⟩ := exists_render_of_normalize_eq hpath
  rcases List.eq_nil_or_concat segments with rfl | ⟨init, last, rfl⟩
  · cases absolute
    · exact absurd rfl hempty
    · exact absurd rfl hroot
  rw [List.concat_eq_append] at h ⊢
  have hlength : 3 ≤ (last ++ '.' :: ext.toList).length := by
    have hlast := List.length_pos_of_ne_nil (h.ne_nil last (by simp))
    have hext : 0 < ext.toList.length := List.length_pos_of_ne_nil (by simpa using hne)
    rw [List.length_append, List.length_cons]
    omega
  have hwritten : String.ofList (render absolute (init ++ [last])) ++ "." ++ ext =
      String.ofList (render absolute (init ++ [last ++ '.' :: ext.toList])) := by
    rw [← render_append_last]
    simp [← String.toList_inj]
  rw [hwritten]
  refine normalize_render (h.left.concat_long hlength ?_ ?_)
  · simpa [hslash] using h.slash_not_mem last (by simp)
  · simpa [hback] using h.backslash_not_mem last (by simp)

/-- A file in a directory: its name behind the path of the directory and a slash, which the empty
path and the root do without. -/
theorem normalize_file {path dir name : String} (hpath : normalize path = path)
    (hdir : dir = if path = "" ∨ path = "/" then path else path ++ "/")
    (hlength : 3 ≤ name.toList.length) (hslash : '/' ∉ name.toList) (hback : '\\' ∉ name.toList) :
    normalize (dir ++ name) = dir ++ name := by
  obtain ⟨absolute, segments, rfl, h⟩ := exists_render_of_normalize_eq hpath
  have hfile : dir ++ name = String.ofList (render absolute (segments ++ [name.toList])) := by
    by_cases hne : segments = []
    -- No segments: the path is empty or the root, and takes no slash.
    · subst hne
      cases absolute <;> simp [hdir, ← String.toList_inj, render, joinSegments]
    · have hroot := mt (eq_nil_of_render_eq h) hne
      rw [render_concat absolute hne]
      simp_all [← String.toList_inj]
  rw [hfile]
  exact normalize_render (h.concat_long hlength hslash hback)

end ScriptAtlas.Path
