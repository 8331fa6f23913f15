import ScriptAtlas.Loading
import ScriptAtlas.Proofs.PathSpelling
import ScriptAtlas.Proofs.WalkOrder

/-! # The places that paths name

A place is the list of the names on the way to it from the root. Entries have names that are
segments of paths, and no two of one directory are shown alike (`WellNamed`). Then whatever a path
names stands at the place of the path (`find_eq_ok`), be the path absolute or relative, and however
it climbs. The id of a path leads to the same place (`shownAll_locate`), so that paths with one id
have one place (`locate_eq_of_pathId_eq`). A place may have several ids, but of all absolute ones
only one, and of all that start from the working directory and do not climb above it also only one
(`eq_of_land_eq`). -/

namespace ScriptAtlas.FileTree

open ScriptAtlas.Path

/-! ### Names of entries -/

/-- The names that entries can have. -/
structure IsEntryName (name : RawText) : Prop where
  isName : IsName name
  slash_not_mem : RawText.slash ∉ name.bytes
  backslash_not_mem : RawText.asciiByte '\\' ∉ name.bytes

instance (name : RawText) : Decidable (IsEntryName name) :=
  decidable_of_iff ((name ≠ ⟨[]⟩ ∧ name ≠ .here ∧ name ≠ .up) ∧
      RawText.slash ∉ name.bytes ∧ RawText.asciiByte '\\' ∉ name.bytes)
    ⟨fun h => ⟨h.1, h.2.1, h.2.2⟩, fun h => ⟨h.isName, h.slash_not_mem, h.backslash_not_mem⟩⟩

/-- Below a directory all entries have names, and those of one directory are shown by different
texts. -/
inductive WellNamed : List FileEntry → Prop
  | intro {entries : List FileEntry} (nodup : (entries.map (·.name.shown)).Nodup)
      (isEntryName : ∀ e ∈ entries, IsEntryName e.name)
      (inside : ∀ name inner, .directory name inner ∈ entries → WellNamed inner) :
      WellNamed entries

variable {entries inner : List FileEntry} {name : RawText} {names names' : List RawText}
  {target target' : Target}

theorem WellNamed.eq_of_shown (h : WellNamed entries) {e e' : FileEntry} (he : e ∈ entries)
    (he' : e' ∈ entries) (hshown : e.name.shown.toList = e'.name.shown.toList) : e = e' := by
  cases h with
  | intro nodup _ _ => exact List.inj_on_of_nodup_map nodup he he' (String.toList_inj.mp hshown)

theorem WellNamed.distinctNames (h : WellNamed entries) : DistinctNames entries := by
  induction h with
  | @intro entries nodup _ _ ih =>
    have hnames : ((entries.map (·.name)).map RawText.shown).Nodup := by
      rw [List.map_map]
      exact nodup
    exact .intro (hnames.of_map _) ih

theorem WellNamed.isEntryName (h : WellNamed entries) {e : FileEntry} (he : e ∈ entries) :
    IsEntryName e.name := by
  cases h with
  | intro _ isEntryName _ => exact isEntryName e he

theorem WellNamed.directory (h : WellNamed entries) (hd : .directory name inner ∈ entries) :
    WellNamed inner := by
  cases h with
  | intro _ _ inside => exact inside name inner hd

theorem WellNamed.isEntryName_of_at (h : WellNamed entries) (hat : At entries names target) :
    ∀ name ∈ names, IsEntryName name := by
  induction hat with
  | here => simp
  | file he => exact List.forall_mem_singleton.mpr (h.isEntryName he)
  | inside he _ ih =>
    exact List.forall_mem_cons.mpr ⟨h.isEntryName he, ih (h.directory he)⟩

/-- Names as they are shown. -/
def shownAll (names : List RawText) : List Segment := names.map (·.shown.toList)

/-- Places that are shown alike are the same. -/
theorem At.eq_of_shownAll (h : WellNamed entries) (hat : At entries names target)
    (hat' : At entries names' target') (hshown : shownAll names = shownAll names') :
    names = names' := by
  induction hat generalizing names' with
  | here => exact (List.map_eq_nil_iff.mp hshown.symm).symm
  | file he =>
    cases hat' with
    | here => cases hshown
    | file he' =>
      cases h.eq_of_shown he he' (List.cons.inj hshown).1
      rfl
    | inside he' hinner' => cases h.eq_of_shown he he' (List.cons.inj hshown).1
  | inside he _ ih =>
    cases hat' with
    | here => cases hshown
    | file he' => cases h.eq_of_shown he he' (List.cons.inj hshown).1
    | inside he' hinner' =>
      cases h.eq_of_shown he he' (List.cons.inj hshown).1
      rw [ih (h.directory he) hinner' (List.cons.inj hshown).2]

/-! ### Following paths -/

/-- The directories on the way from `root` to a directory, and their names, both last first. -/
inductive Trail (root : List FileEntry) :
    List RawText → List FileEntry → List (List FileEntry) → Prop
  | start : Trail root [] root []
  | enter {done : List RawText} {here inner : List FileEntry} {above : List (List FileEntry)}
      {name : RawText} (h : Trail root done here above) (hd : .directory name inner ∈ here) :
      Trail root (name :: done) inner (here :: above)

variable {root here : List FileEntry} {done : List RawText} {above : List (List FileEntry)}
  {segments : List RawText}

theorem Trail.at (h : Trail root done here above) : At root done.reverse (.directory here) := by
  induction h with
  | start => exact .here
  | enter _ hd ih =>
    rw [List.reverse_cons]
    exact ih.append (.inside hd .here)

theorem Trail.wellNamed (hroot : WellNamed root) (h : Trail root done here above) :
    WellNamed here := by
  induction h with
  | start => exact hroot
  | enter _ hd ih => exact ih.directory hd

/-- The directories above the working directory lead to it. -/
theorem trail (t : FileTree) : Trail t.root t.wayUp t.entries (parents t.entries t.above) := by
  obtain ⟨entries, above⟩ := t
  induction above generalizing entries with
  | nil => exact .start
  | cons level above ih =>
    have hroot : root ⟨entries, level :: above⟩ =
        root ⟨.directory level.name entries :: level.others, above⟩ := by
      simp only [root, parents, List.getLastD_cons]
    rw [hroot]
    exact (ih _).enter List.mem_cons_self

theorem isName_or (s : RawText) : (s = ⟨[]⟩ ∨ s = .here) ∨ s = .up ∨ IsName s := by
  unfold IsName
  tauto

theorem step_of_skip (h : name = ⟨[]⟩ ∨ name = .here) (done : List RawText) :
    step done name = done := if_pos (by simpa using h)

theorem step_up (done : List RawText) : step done .up = done.tail := rfl

theorem step_of_isName (h : IsName name) (done : List RawText) : step done name = name :: done := by
  unfold step
  rw [if_neg (by simp [h.1, h.2.1]), if_neg h.2.2]

theorem follow_skip (h : name = ⟨[]⟩ ∨ name = .here) :
    follow (.directory here) above (name :: segments) =
      follow (.directory here) above segments := by
  rw [follow, if_pos (by simpa using h)]

theorem follow_up :
    follow (.directory here) above (.up :: segments) =
      follow (.directory (above.headD here)) above.tail segments := by
  rw [follow, if_neg (by decide), if_pos rfl]

/-- Segments that can be followed lead to the place that they spell. -/
theorem Trail.follow_eq_ok (hroot : WellNamed root) (htrail : Trail root done here above)
    (h : follow (.directory here) above segments = .ok target) :
    (∀ s ∈ segments, RawText.asciiByte '\\' ∉ s.bytes) ∧
      At root (segments.foldl step done).reverse target := by
  induction segments generalizing done here above with
  | nil =>
    cases h
    exact ⟨by simp, htrail.at⟩
  | cons s segments ih =>
    rw [List.forall_mem_cons, List.foldl_cons]
    rcases isName_or s with hskip | rfl | hname
    · rw [follow_skip hskip] at h
      rw [step_of_skip hskip]
      obtain ⟨hback, hat⟩ := ih htrail h
      refine ⟨⟨?_, hback⟩, hat⟩
      rcases hskip with rfl | rfl <;> decide
    · rw [follow_up] at h
      rw [step_up]
      -- Above the root there is the root.
      cases htrail with
      | start =>
        obtain ⟨hback, hat⟩ := ih .start h
        exact ⟨⟨by decide, hback⟩, hat⟩
      | enter htrail _ =>
        obtain ⟨hback, hat⟩ := ih htrail h
        exact ⟨⟨by decide, hback⟩, hat⟩
    · have hhere := htrail.wellNamed hroot
      rw [follow_cons hname] at h
      rw [step_of_isName hname]
      cases hlookup : lookup? here s with
      | none =>
        rw [hlookup] at h
        cases h
      | some found =>
        rw [hlookup, Option.elim_some] at h
        have hentry := (lookup?_eq_some_iff hhere.distinctNames.nodup).mp hlookup
        have hback := (hhere.isEntryName hentry).backslash_not_mem
        cases found with
        | directory inner =>
          obtain ⟨hrest, hat⟩ := ih (htrail.enter hentry) h
          exact ⟨⟨hback, hrest⟩, hat⟩
        | file bytes =>
          -- Behind a file there is nothing, so it has to be the last segment.
          cases segments with
          | cons t rest => cases h
          | nil =>
            cases h
            refine ⟨⟨hback, by simp⟩, ?_⟩
            rw [List.foldl_nil, List.reverse_cons]
            exact htrail.at.append (.file hentry)

variable {t : FileTree} {path path' : RawText}

/-- What a path names stands at its place. -/
structure LeadsTo (t : FileTree) (path : RawText) (target : Target) : Prop where
  ne_nil : path ≠ ⟨[]⟩
  backslash_not_mem : RawText.asciiByte '\\' ∉ path.bytes
  isAt : At t.root (t.locate path) target

theorem find_eq_ok (ht : WellNamed t.root) (h : t.find path = .ok target) :
    LeadsTo t path target := by
  have hnil : path ≠ ⟨[]⟩ := by
    rintro rfl
    cases h
  have hwhole : (∀ s ∈ path.segments, RawText.asciiByte '\\' ∉ s.bytes) ∧
      At t.root (t.locate path) target := by
    rw [find, if_neg hnil] at h
    unfold locate
    split at h
    · next habsolute =>
      rw [if_pos habsolute]
      exact Trail.start.follow_eq_ok ht h
    · next hrelative =>
      rw [if_neg hrelative]
      exact t.trail.follow_eq_ok ht h
  refine ⟨hnil, fun hmem => ?_, hwhole.2⟩
  have hjoined : [RawText.slash].intercalate (Text.splitAt RawText.slash path.bytes) =
      path.bytes := by
    rw [splitAt_eq_splitOn]
    exact List.intercalate_splitOn _
  rw [← hjoined] at hmem
  rcases mem_intercalate hmem with hslash | ⟨part, hpart, hmem⟩
  · exact absurd hslash (by decide)
  · exact hwhole.1 ⟨part⟩ (List.mem_map_of_mem hpart) hmem

/-! ### Paths below a directory -/

theorem segments_join (hnames : ∀ name ∈ names, IsEntryName name) (path : RawText) :
    (path.join names).segments = path.segments ++ names := by
  cases names with
  | nil => simp [RawText.segments, RawText.join]
  | cons name names =>
    have hparts : Text.splitAt RawText.slash
        ([RawText.slash].intercalate ((name :: names).map (·.bytes))) =
          (name :: names).map (·.bytes) :=
      splitAt_intercalate (List.forall_mem_map.mpr fun n hn => (hnames n hn).slash_not_mem)
        (by simp)
    have hmk : ((name :: names).map (·.bytes)).map RawText.mk = name :: names := by
      rw [List.map_map]
      exact List.map_id _
    rw [RawText.segments, RawText.join, List.map_cons, List.intercalate_cons_cons,
      ← List.map_cons, List.append_assoc, List.singleton_append, splitAt_append_cons, hparts,
      List.map_append, hmk]
    rfl

theorem isAbsolute_join (hne : path ≠ ⟨[]⟩) (names : List RawText) :
    (path.join names).isAbsolute = path.isAbsolute := by
  obtain ⟨bytes⟩ := path
  cases bytes with
  | nil => exact absurd rfl hne
  | cons b bytes =>
    cases names with
    | nil => simp [RawText.join]
    | cons name names =>
      rw [RawText.join, List.map_cons, List.intercalate_cons_cons]
      rfl

theorem foldl_step_names (hnames : ∀ name ∈ names, IsEntryName name) (done : List RawText) :
    names.foldl step done = names.reverse ++ done := by
  induction names generalizing done with
  | nil => rfl
  | cons name names ih =>
    rw [List.forall_mem_cons] at hnames
    rw [List.foldl_cons, step_of_isName hnames.1.isName, ih hnames.2, List.reverse_cons,
      List.append_assoc, List.singleton_append]

theorem locate_join (hne : path ≠ ⟨[]⟩) (hnames : ∀ name ∈ names, IsEntryName name)
    (t : FileTree) : t.locate (path.join names) = t.locate path ++ names := by
  rw [locate, segments_join hnames, isAbsolute_join hne, List.foldl_append,
    foldl_step_names hnames, List.reverse_append, List.reverse_reverse]
  rfl

theorem LeadsTo.join (ht : WellNamed t.root) (h : LeadsTo t path (.directory entries))
    (hat : At entries names target) : LeadsTo t (path.join names) target := by
  have hwhole : At t.root (t.locate path ++ names) target := h.isAt.append hat
  have hnames : ∀ name ∈ names, IsEntryName name := fun name hname =>
    ht.isEntryName_of_at hwhole name (List.mem_append_right _ hname)
  refine ⟨fun hnil => ?_, fun hmem => ?_, ?_⟩
  · have hjoined := congrArg RawText.bytes hnil
    cases names with
    | nil => exact h.ne_nil (congrArg RawText.mk (by simpa [RawText.join] using hjoined))
    | cons name names => simp [RawText.join, List.intercalate_cons_cons] at hjoined
  · rcases mem_intercalate hmem with hslash | ⟨part, hpart, hmem⟩
    · exact absurd hslash (by decide)
    · rcases List.mem_cons.mp hpart with rfl | hpart
      · exact h.backslash_not_mem hmem
      · obtain ⟨name, hname, rfl⟩ := List.mem_map.mp hpart
        exact (hnames name hname).backslash_not_mem hmem
  · rw [locate_join h.ne_nil hnames]
    exact hwhole

/-! ### Ids and places -/

/-- Where an id leads, by names as they are shown. -/
def land (t : FileTree) (id : String) : List Segment :=
  descend true (if Path.isAbsolute id.toList then [] else shownAll t.wayUp.reverse) (written id)

theorem isName_of_mem_step (hdone : ∀ name ∈ done, IsName name) (s : RawText) :
    ∀ name ∈ step done s, IsName name := by
  rcases isName_or s with hskip | rfl | hname
  · rwa [step_of_skip hskip]
  · rw [step_up]
    exact fun name hmem => hdone name (List.mem_of_mem_tail hmem)
  · rw [step_of_isName hname]
    exact List.forall_mem_cons.mpr ⟨hname, hdone⟩

/-- Taking a segment is taking what it is shown by; at the root `..` does nothing. -/
theorem shownAll_step (hdone : ∀ name ∈ done, IsName name) (s : RawText) :
    shownAll (step done s) = push true (shownAll done) s.shown.toList := by
  rcases isName_or s with hskip | rfl | hname
  · rw [step_of_skip hskip, push_of_skip]
    rwa [RawText.shown_eq_nil_iff, RawText.shown_eq_dot_iff]
  · have hup : RawText.up.shown.toList = dotDot := RawText.shown_eq_dotDot_iff.mpr rfl
    rw [step_up, hup]
    cases done with
    | nil => rfl
    | cons name done =>
      have hne : name.shown.toList ≠ dotDot :=
        mt RawText.shown_eq_dotDot_iff.mp (hdone name List.mem_cons_self).2.2
      exact (push_dotDot_cons hne _).symm
  · rw [step_of_isName hname, push_of_name]
    · rfl
    · rw [RawText.shown_eq_nil_iff, RawText.shown_eq_dot_iff]
      exact not_or.mpr ⟨hname.1, hname.2.1⟩
    · exact mt RawText.shown_eq_dotDot_iff.mp hname.2.2

theorem shownAll_foldl_step (hdone : ∀ name ∈ done, IsName name) :
    shownAll (segments.foldl step done) =
      (shownAll segments).foldl (push true) (shownAll done) := by
  induction segments generalizing done with
  | nil => rfl
  | cons s segments ih =>
    rw [List.foldl_cons, ih (isName_of_mem_step hdone s), shownAll_step hdone]
    rfl

theorem isName_of_mem_wayUp (ht : WellNamed t.root) : ∀ name ∈ t.wayUp, IsName name :=
  fun name hname =>
    (ht.isEntryName_of_at t.trail.at name (List.mem_reverse.mpr hname)).isName

theorem isAbsolute_slashed_shown (hback : RawText.asciiByte '\\' ∉ path.bytes) :
    Path.isAbsolute (slashed path.shown.toList) = path.isAbsolute := by
  rw [slashed_of_not_mem (RawText.backslash_not_mem_shown hback), RawText.isAbsolute_shown]

theorem isAbsolute_pathId (hback : RawText.asciiByte '\\' ∉ path.bytes) :
    Path.isAbsolute (pathId path).toList = path.isAbsolute := by
  rw [pathId, isAbsolute_normalize, isAbsolute_slashed_shown hback]

/-- The place of a path is shown by the names to which its id leads. -/
theorem shownAll_locate (ht : WellNamed t.root) (hback : RawText.asciiByte '\\' ∉ path.bytes) :
    shownAll (t.locate path) = t.land (pathId path) := by
  have hslashed := isAbsolute_slashed_shown hback
  have hstart : ∀ name ∈ (if path.isAbsolute then [] else t.wayUp), IsName name := by
    split
    · simp
    · exact isName_of_mem_wayUp ht
  have hplace : shownAll (t.locate path) =
      descend true (if path.isAbsolute then [] else shownAll t.wayUp.reverse)
        (written path.shown) := by
    have hreverse (names : List RawText) : shownAll names.reverse = (shownAll names).reverse :=
      List.map_reverse
    rw [locate, hreverse, shownAll_foldl_step hstart, descend, RawText.written_shown hback]
    cases path.isAbsolute <;> simp [shownAll]
  rw [hplace, land, isAbsolute_pathId hback, pathId]
  cases habsolute : path.isAbsolute with
  | true =>
    have hcanonical := canonical_written_normalize path.shown
    rw [hslashed, habsolute] at hcanonical
    exact hcanonical.symm
  | false => exact (descend_written_normalize true _ (hslashed.trans habsolute)).symm

theorem locate_eq_of_pathId_eq (ht : WellNamed t.root) (h : LeadsTo t path target)
    (h' : LeadsTo t path' target') (hid : pathId path = pathId path') :
    t.locate path = t.locate path' := by
  refine h.isAt.eq_of_shownAll ht h'.isAt ?_
  rw [shownAll_locate ht h.backslash_not_mem, shownAll_locate ht h'.backslash_not_mem, hid]

/-- From an id that does not climb, its segments can be read off where it leads. -/
theorem land_render {absolute : Bool} {segments : List Segment}
    (h : IsCanonical absolute segments)
    (hclimbs : ¬ Climbs (String.ofList (render absolute segments))) :
    t.land (String.ofList (render absolute segments)) =
      (if absolute then [] else shownAll t.wayUp.reverse) ++ segments := by
  have hwritten : canonical absolute (written (String.ofList (render absolute segments))) =
      segments := by
    rw [written, String.toList_ofList, slashed_render h]
    exact canonical_splitAt_render h
  rw [land, String.toList_ofList, isAbsolute_render h]
  cases absolute with
  | true => exact hwritten
  | false =>
    have hinner : (descend false [] (written (String.ofList (render false segments)))).head? ≠
        some dotDot := by
      rw [climbs_render h] at hclimbs
      exact fun hhead => hclimbs (hwritten ▸ hhead)
    have happend := descend_append true (by simp) hinner (shownAll t.wayUp.reverse)
    rw [List.append_nil] at happend
    exact happend.trans (congrArg _ hwritten)

/-- Ids that do not climb, and start from the same directory, lead to different places. -/
theorem eq_of_land_eq {id id' : String} (hid : Path.normalize id = id)
    (hid' : Path.normalize id' = id')
    (hstart : Path.isAbsolute id.toList = Path.isAbsolute id'.toList) (hclimbs : ¬ Climbs id)
    (hclimbs' : ¬ Climbs id') (h : t.land id = t.land id') : id = id' := by
  obtain ⟨absolute, segments, rfl, hcanonical⟩ := exists_render_of_normalize_eq hid
  obtain ⟨absolute', segments', rfl, hcanonical'⟩ := exists_render_of_normalize_eq hid'
  rw [String.toList_ofList, String.toList_ofList, isAbsolute_render hcanonical,
    isAbsolute_render hcanonical'] at hstart
  subst hstart
  rw [land_render hcanonical hclimbs, land_render hcanonical' hclimbs'] at h
  rw [List.append_cancel_left h]

end ScriptAtlas.FileTree
