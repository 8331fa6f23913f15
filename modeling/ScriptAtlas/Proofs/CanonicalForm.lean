import ScriptAtlas.Proofs.PathJoin

/-! # The canonical form of paths

What a path in canonical form looks like, read off its text: no backslashes, no empty and no `.`
segments, and `..` only in an initial run of a relative path (`InCanonicalForm`). Every path is
brought to that form, these paths are the ones that stay as they are, and so they are all there is
to come out (`normalize_canonical`). -/

namespace ScriptAtlas.Path

open Text

/-! ### Segments of a text -/

/-- A path without the slash that opens it if it is absolute. -/
def body (path : String) : List Char :=
  if isAbsolute path.toList then path.toList.tail else path.toList

/-- The segments between the slashes of a path, as they are written. The empty path and the root
have none. -/
def segmentsOf (path : String) : List Segment :=
  if body path = [] then [] else splitAt '/' (body path)

/-- A path in canonical form. -/
structure InCanonicalForm (path : String) : Prop where
  backslash_not_mem : '\\' ∉ path.toList
  nil_not_mem : [] ∉ segmentsOf path
  dot_not_mem : ['.'] ∉ segmentsOf path
  /-- Behind the `..` segments in front there are no more of them. -/
  dotDot_not_mem_rest : dotDot ∉ (segmentsOf path).dropWhile (· = dotDot)
  dotDot_not_mem : isAbsolute path.toList = true → dotDot ∉ segmentsOf path

instance (path : String) : Decidable (InCanonicalForm path) :=
  decidable_of_iff
    ('\\' ∉ path.toList ∧ [] ∉ segmentsOf path ∧ ['.'] ∉ segmentsOf path ∧
      dotDot ∉ (segmentsOf path).dropWhile (· = dotDot) ∧
      (isAbsolute path.toList = true → dotDot ∉ segmentsOf path))
    ⟨fun ⟨h₁, h₂, h₃, h₄, h₅⟩ => ⟨h₁, h₂, h₃, h₄, h₅⟩,
      fun ⟨h₁, h₂, h₃, h₄, h₅⟩ => ⟨h₁, h₂, h₃, h₄, h₅⟩⟩

theorem joinSegments_splitAt (cs : List Char) : joinSegments (splitAt '/' cs) = cs := by
  rw [splitAt_eq_splitOn]
  exact List.intercalate_splitOn '/'

/-- A path is written from its segments. -/
theorem render_segmentsOf (path : String) :
    String.ofList (render (isAbsolute path.toList) (segmentsOf path)) = path := by
  have hbody : joinSegments (segmentsOf path) = body path := by
    unfold segmentsOf
    split
    · next hnil => rw [hnil]; rfl
    · exact joinSegments_splitAt _
  have hwhole : render (isAbsolute path.toList) (segmentsOf path) = path.toList := by
    rw [render, hbody, body]
    split
    · next habsolute =>
      obtain ⟨rest, hrest⟩ := List.head?_eq_some_iff.mp (of_decide_eq_true habsolute)
      rw [hrest]
      rfl
    · rfl
  rw [hwhole, String.ofList_toList]

theorem body_render {absolute : Bool} {segments : List Segment}
    (h : IsCanonical absolute segments) :
    body (String.ofList (render absolute segments)) = joinSegments segments := by
  rw [body, String.toList_ofList, isAbsolute_render h]
  cases absolute <;> rfl

/-- The segments that a canonical path is written from are those of its text. -/
theorem segmentsOf_render {absolute : Bool} {segments : List Segment}
    (h : IsCanonical absolute segments) :
    segmentsOf (String.ofList (render absolute segments)) = segments := by
  rw [segmentsOf, body_render h]
  by_cases hne : segments = []
  · rw [hne]
    rfl
  · have hsplit := splitAt_joinSegments h.slash_not_mem hne
    have hbody : joinSegments segments ≠ [] := by
      intro hnil
      rw [hnil] at hsplit
      exact h.ne_nil [] (hsplit ▸ List.mem_singleton.mpr rfl) rfl
    rw [if_neg hbody, hsplit]

/-! ### The form and the segments -/

/-- "Before `..` there is only `..`" as a condition on what is behind an initial run. -/
theorem pairwise_climbing_iff (segments : List Segment) :
    (segments.Pairwise fun s t => t = dotDot → s = dotDot) ↔
      dotDot ∉ segments.dropWhile (· = dotDot) := by
  induction segments with
  | nil => simp
  | cons s segments ih =>
    rw [List.pairwise_cons, ih]
    by_cases hs : s = dotDot
    · simp [hs]
    · have hsub : dotDot ∈ segments.dropWhile (· = dotDot) → dotDot ∈ segments := fun hmem =>
        List.dropWhile_subset _ hmem
      rw [List.dropWhile_cons_of_neg (by simpa using hs), List.mem_cons, not_or]
      constructor
      · rintro ⟨hfront, -⟩
        exact ⟨Ne.symm hs, fun hmem => hs (hfront dotDot hmem rfl)⟩
      · rintro ⟨-, hmem⟩
        exact ⟨fun t ht hd => absurd (hd ▸ ht) hmem, mt hsub hmem⟩

theorem inCanonicalForm_iff (path : String) :
    InCanonicalForm path ↔ IsCanonical (isAbsolute path.toList) (segmentsOf path) := by
  have hsegment : ∀ s ∈ segmentsOf path, '/' ∉ s ∧ ∀ c ∈ s, c ∈ path.toList := by
    intro s hs
    unfold segmentsOf at hs
    split at hs
    · cases hs
    · have hbody : ∀ c ∈ body path, c ∈ path.toList := by
        intro c hc
        unfold body at hc
        split at hc
        · exact List.mem_of_mem_tail hc
        · exact hc
      exact ⟨(mem_splitAt hs).1, fun c hc => hbody c ((mem_splitAt hs).2 c hc)⟩
  constructor
  · intro h
    exact {
      ne_nil := fun s hs heq => h.nil_not_mem (heq ▸ hs)
      ne_dot := fun s hs heq => h.dot_not_mem (heq ▸ hs)
      slash_not_mem := fun s hs => (hsegment s hs).1
      backslash_not_mem := fun s hs hc => h.backslash_not_mem ((hsegment s hs).2 _ hc)
      climbing := (pairwise_climbing_iff _).mpr h.dotDot_not_mem_rest
      dotDot_not_mem := h.dotDot_not_mem }
  · intro h
    have hback : '\\' ∉ path.toList := by
      intro hc
      rw [← render_segmentsOf path, String.toList_ofList] at hc
      exact backslash_not_mem_render h hc
    exact {
      backslash_not_mem := hback
      nil_not_mem := fun hmem => h.ne_nil [] hmem rfl
      dot_not_mem := fun hmem => h.ne_dot ['.'] hmem rfl
      dotDot_not_mem_rest := (pairwise_climbing_iff _).mp h.climbing
      dotDot_not_mem := h.dotDot_not_mem }

theorem inCanonicalForm_render {absolute : Bool} {segments : List Segment}
    (h : IsCanonical absolute segments) :
    InCanonicalForm (String.ofList (render absolute segments)) := by
  rw [inCanonicalForm_iff, segmentsOf_render h, String.toList_ofList, isAbsolute_render h]
  exact h

theorem inCanonicalForm_normalize (path : String) : InCanonicalForm (normalize path) := by
  obtain ⟨absolute, segments, heq, h⟩ := exists_render_of_normalize_eq (normalize_normalize path)
  rw [heq]
  exact inCanonicalForm_render h

/-- A path in canonical form stays as it is. -/
theorem normalize_of_inCanonicalForm {path : String} (h : InCanonicalForm path) :
    normalize path = path := by
  have hrender := normalize_render ((inCanonicalForm_iff path).mp h)
  rwa [render_segmentsOf] at hrender

theorem head?_normalize (path : String) :
    (normalize path).toList.head? = some '/' ↔
      path.toList.head? = some '/' ∨ path.toList.head? = some '\\' := by
  rw [← isAbsolute_slashed_iff, ← isAbsolute_normalize, isAbsolute, decide_eq_true_iff]

/-- **Paths have one canonical form.** A path is brought to a text in canonical form, absolute just
if the path opens with a slash of either kind. What is in canonical form stays as it is, and nothing
else does; so bringing a path there again changes nothing, and the canonical forms are the paths in
canonical form. -/
theorem normalize_canonical (path : String) :
    InCanonicalForm (normalize path) ∧
    ((normalize path).toList.head? = some '/' ↔
      path.toList.head? = some '/' ∨ path.toList.head? = some '\\') ∧
    (normalize path = path ↔ InCanonicalForm path) ∧
    normalize (normalize path) = normalize path ∧
    ((∃ source, normalize source = path) ↔ InCanonicalForm path) := by
  refine ⟨inCanonicalForm_normalize path, head?_normalize path, ⟨?_, ?_⟩,
    normalize_normalize path, ⟨?_, ?_⟩⟩
  · intro h
    rw [← h]
    exact inCanonicalForm_normalize path
  · exact normalize_of_inCanonicalForm
  · rintro ⟨source, rfl⟩
    exact inCanonicalForm_normalize source
  · intro h
    exact ⟨path, normalize_of_inCanonicalForm h⟩

end ScriptAtlas.Path
