import Mathlib.Data.List.Nodup
import ScriptAtlas.FileTree
import ScriptAtlas.Proofs.RawTexts

/-! # Regular files of a file tree

A regular file stands behind the names of the directories on the way to it (`HoldsFile`). Where no
directory has a name twice (`DistinctNames`), following names from a directory ends at a regular
file just if there is one behind them (`exists_follow_eq_file_iff`). So a canonical path that stays
below the working directory names a regular file just if there is one behind its segments, and where
the regular files below the working directory are known just if it is the path of one of them
(`HoldsExactly.isFile_iff_mem`). -/

namespace ScriptAtlas.FileTree

open ScriptAtlas.Path

variable {entries inner : List FileEntry} {name : RawText} {names : List RawText}

/-! ### Bytes -/

theorem decode_eq_ok_iff {bytes : ByteArray} {s : String} :
    decode bytes = .ok s ↔ bytes = s.toUTF8 := by
  rw [← RawText.fromUTF8?_eq_some_iff, decode]
  cases String.fromUTF8? bytes <;> simp

/-! ### Names on the way -/

/-- Is there a regular file behind these names? -/
inductive HoldsFile : List FileEntry → List RawText → Prop
  | file {entries : List FileEntry} {name : RawText} {bytes : ByteArray}
      (h : .file name bytes ∈ entries) : HoldsFile entries [name]
  | directory {entries inner : List FileEntry} {name : RawText} {names : List RawText}
      (h : .directory name inner ∈ entries) (hinner : HoldsFile inner names) :
      HoldsFile entries (name :: names)

/-- No directory has two entries of one name. -/
inductive DistinctNames : List FileEntry → Prop
  | intro {entries : List FileEntry} (nodup : (entries.map (·.name)).Nodup)
      (below : ∀ name inner, .directory name inner ∈ entries → DistinctNames inner) :
      DistinctNames entries

theorem DistinctNames.nodup (h : DistinctNames entries) : (entries.map (·.name)).Nodup := by
  cases h with
  | intro nodup _ => exact nodup

theorem DistinctNames.directory (h : DistinctNames entries) (hd : .directory name inner ∈ entries) :
    DistinctNames inner := by
  cases h with
  | intro _ below => exact below name inner hd

theorem not_holdsFile_nil : ¬ HoldsFile entries [] := by
  intro h
  cases h

theorem holdsFile_cons_iff :
    HoldsFile entries (name :: names) ↔
      (names = [] ∧ ∃ bytes, .file name bytes ∈ entries) ∨
        ∃ inner, .directory name inner ∈ entries ∧ HoldsFile inner names := by
  constructor
  · intro h
    cases h with
    | file h => exact Or.inl ⟨rfl, _, h⟩
    | directory h hinner => exact Or.inr ⟨_, h, hinner⟩
  · rintro (⟨rfl, bytes, h⟩ | ⟨inner, h, hinner⟩)
    · exact .file h
    · exact .directory h hinner

/-! ### Looking up a name -/

theorem find?_name_eq_some_iff (h : (entries.map (·.name)).Nodup) {e : FileEntry} :
    entries.find? (·.name = name) = some e ↔ e ∈ entries ∧ e.name = name := by
  constructor
  · intro he
    exact ⟨List.mem_of_find?_eq_some he, by simpa using List.find?_some he⟩
  · rintro ⟨he, rfl⟩
    have hsome : (entries.find? (·.name = e.name)).isSome := List.find?_isSome.mpr ⟨e, he, by simp⟩
    obtain ⟨d, hd⟩ := Option.isSome_iff_exists.mp hsome
    have hname : d.name = e.name := by simpa using List.find?_some hd
    rw [hd, List.inj_on_of_nodup_map h (List.mem_of_find?_eq_some hd) he hname]

/-- What stands at the end of a path as an entry of a directory. -/
def Target.entry (name : RawText) : Target → FileEntry
  | .file bytes => .file name bytes
  | .directory inner => .directory name inner

theorem lookup?_eq_some_iff (h : (entries.map (·.name)).Nodup) {target : Target} :
    lookup? entries name = some target ↔ target.entry name ∈ entries := by
  simp only [lookup?, Option.map_eq_some_iff, find?_name_eq_some_iff h]
  constructor
  · rintro ⟨e, ⟨he, rfl⟩, rfl⟩
    cases e with
    | file name bytes => exact he
    | directory name inner => exact he
  · intro he
    cases target with
    | file bytes => exact ⟨_, ⟨he, rfl⟩, rfl⟩
    | directory inner => exact ⟨_, ⟨he, rfl⟩, rfl⟩

theorem holdsFile_cons_iff_lookup? (h : DistinctNames entries) :
    HoldsFile entries (name :: names) ↔
      (names = [] ∧ ∃ bytes, lookup? entries name = some (.file bytes)) ∨
        ∃ inner, lookup? entries name = some (.directory inner) ∧ HoldsFile inner names := by
  simp only [holdsFile_cons_iff, lookup?_eq_some_iff h.nodup, Target.entry]

/-! ### Following names -/

/-- A segment that leads to an entry of the directory, not to the directory itself or above it. -/
def IsName (s : RawText) : Prop := s ≠ ⟨[]⟩ ∧ s ≠ .here ∧ s ≠ .up

theorem follow_cons {s : RawText} (hs : IsName s) (above : List (List FileEntry))
    (segments : List RawText) :
    follow (.directory entries) above (s :: segments) =
      (lookup? entries s).elim (.error .notFound)
        fun target => follow target (entries :: above) segments := by
  obtain ⟨hnil, hdot, hclimb⟩ := hs
  rw [follow, if_neg (by simp [hnil, hdot]), if_neg hclimb]
  cases lookup? entries s with
  | none => rfl
  | some target => rfl

theorem exists_follow_eq_file_iff (h : DistinctNames entries) (hnames : ∀ s ∈ names, IsName s)
    (above : List (List FileEntry)) :
    (∃ bytes, follow (.directory entries) above names = .ok (.file bytes)) ↔
      HoldsFile entries names := by
  -- From any directory: what lies above it does not matter, since no name leads there.
  induction names generalizing entries above with
  | nil => simp [follow, not_holdsFile_nil]
  | cons s names ih =>
    rw [follow_cons (hnames s List.mem_cons_self), holdsFile_cons_iff_lookup? h]
    cases hlookup : lookup? entries s with
    | none => simp
    | some target =>
      cases target with
      | file bytes =>
        -- Behind a file there is nothing, so it has to be the last name.
        cases names <;> simp [follow]
      | directory inner =>
        have hinner := h.directory ((lookup?_eq_some_iff h.nodup).mp hlookup)
        simpa using ih hinner (fun t ht => hnames t (List.mem_cons_of_mem _ ht)) (entries :: above)

/-! ### Paths -/

theorem isFile_iff {t : FileTree} {path : RawText} :
    t.isFile path = true ↔ ∃ bytes, t.find path = .ok (.file bytes) := by
  unfold isFile
  split <;> simp_all

/-- The name of a segment. -/
def nameOf (s : Segment) : RawText := .ofString (String.ofList s)

theorem shown_nameOf (s : Segment) : (nameOf s).shown.toList = s := by
  rw [nameOf, RawText.shown_ofString, String.toList_ofList]

theorem isName_nameOf {s : Segment} (hnil : s ≠ []) (hdot : s ≠ ['.']) (hclimb : s ≠ dotDot) :
    IsName (nameOf s) := by
  refine ⟨?_, ?_, ?_⟩
  · rwa [ne_eq, ← RawText.shown_eq_nil_iff, shown_nameOf]
  · rwa [ne_eq, ← RawText.shown_eq_dot_iff, shown_nameOf]
  · rwa [ne_eq, ← RawText.shown_eq_dotDot_iff, shown_nameOf]

/-- The names on the way to a path from the working directory on. -/
def wayTo (path : String) : List RawText :=
  ((Text.splitAt '/' (normalizeChars path.toList)).filter (· ≠ [])).map nameOf

variable {t : FileTree} {path : String} {segments : List Segment}

theorem find_render (h : IsCanonical false segments) (hne : segments ≠ []) :
    t.find (String.ofList (render false segments)) =
      follow (.directory t.entries) (parents t.entries t.above) (segments.map nameOf) := by
  have hempty : RawText.ofString (String.ofList (render false segments)) ≠ ⟨[]⟩ := by
    rw [ne_eq, ← RawText.shown_eq_nil_iff, RawText.shown_ofString, String.toList_ofList]
    exact fun hnil => hne (eq_nil_of_render_eq h (Or.inl hnil))
  rw [find, if_neg hempty, RawText.isAbsolute_ofString, RawText.segments_ofString,
    String.toList_ofList, isAbsolute_render h, splitAt_render h hne]
  rfl

theorem wayTo_render (h : IsCanonical false segments) :
    wayTo (String.ofList (render false segments)) = segments.map nameOf := by
  rw [wayTo, String.toList_ofList, normalizeChars_render h]
  by_cases hne : segments = []
  · subst hne
    rfl
  · rw [splitAt_render h hne, List.filter_eq_self.mpr]
    intro s hs
    simpa using h.ne_nil s hs

theorem isFile_iff_holdsFile (ht : DistinctNames t.entries) (hpath : Path.normalize path = path)
    (hinner : IsInner path) : t.isFile path = true ↔ HoldsFile t.entries (wayTo path) := by
  have hcanonical : IsCanonical false (descend false [] (written path)) := isCanonical_written path
  have hnames : ∀ s ∈ (descend false [] (written path)).map nameOf, IsName s :=
    List.forall_mem_map.mpr fun s hs => isName_nameOf (hcanonical.ne_nil s hs)
      (hcanonical.ne_dot s hs) (ne_of_mem_of_not_mem hs hinner.dotDot_not_mem)
  have hrender := hinner.normalize_eq
  rw [hpath] at hrender
  rw [isFile_iff, hrender, find_render hcanonical hinner.segments_ne_nil, wayTo_render hcanonical]
  exact exists_follow_eq_file_iff ht hnames _

theorem eq_of_wayTo_eq {path' : String} (h : Path.normalize path = path)
    (h' : Path.normalize path' = path') (hrelative : isAbsolute path.toList = false)
    (hrelative' : isAbsolute path'.toList = false)
    (hnames : wayTo path = wayTo path') : path = path' := by
  obtain ⟨absolute, segments, rfl, hc⟩ := exists_render_of_normalize_eq h
  obtain ⟨absolute', segments', rfl, hc'⟩ := exists_render_of_normalize_eq h'
  rw [String.toList_ofList, isAbsolute_render hc] at hrelative
  rw [String.toList_ofList, isAbsolute_render hc'] at hrelative'
  subst hrelative hrelative'
  rw [wayTo_render hc, wayTo_render hc'] at hnames
  have hsegments : segments = segments' := by
    have hshown := congrArg (List.map (·.shown.toList)) hnames
    simpa [Function.comp_def, shown_nameOf] using hshown
  rw [hsegments]

/-! ### Trees with known files -/

/-- The regular files below the working directory are those at these paths. Which directories there
are besides those on the way to them does not matter, nor what is above the working directory. -/
structure HoldsExactly (t : FileTree) (paths : List String) : Prop where
  distinct : DistinctNames t.entries
  holds_iff : ∀ names, HoldsFile t.entries names ↔ ∃ path ∈ paths, wayTo path = names

namespace HoldsExactly

variable {paths : List String}

/-- No regular file stands at the empty path. -/
theorem ne_empty (h : t.HoldsExactly paths) (hpath : path ∈ paths) : path ≠ "" := by
  rintro rfl
  have hnames : wayTo "" = [] := rfl
  exact not_holdsFile_nil ((h.holds_iff []).mpr ⟨"", hpath, hnames⟩)

theorem isFile_iff_mem (h : t.HoldsExactly paths)
    (hpaths : ∀ p ∈ paths, Path.normalize p = p ∧ isAbsolute p.toList = false)
    (hpath : Path.normalize path = path) (hinner : IsInner path) :
    t.isFile path = true ↔ path ∈ paths := by
  have hrelative : isAbsolute path.toList = false := by
    rw [← hpath]
    exact hinner.relative
  rw [isFile_iff_holdsFile h.distinct hpath hinner, h.holds_iff]
  constructor
  · rintro ⟨p, hp, hnames⟩
    obtain ⟨hp', hprelative⟩ := hpaths p hp
    rwa [← eq_of_wayTo_eq hp' hpath hprelative hrelative hnames]
  · intro hmem
    exact ⟨path, hmem, rfl⟩

end HoldsExactly

end ScriptAtlas.FileTree
