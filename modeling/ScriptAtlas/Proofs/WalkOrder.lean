import ScriptAtlas.Proofs.FileLookup

/-! # What a walk through a directory meets

A walk meets the files that stand behind names none of which but the last is ignored
(`mem_walk_iff`). It takes the entries of each directory by name and stays in a directory until it
is done, so the files come in the lexicographic order of the names on the way to them
(`pairwise_walk`), each of them once. -/

namespace ScriptAtlas.FileTree

open ScriptAtlas.Path

/-! ### What stands behind names -/

/-- What stands behind these names, from a directory on. -/
inductive At : List FileEntry → List RawText → Target → Prop
  | here {entries : List FileEntry} : At entries [] (.directory entries)
  | file {entries : List FileEntry} {name : RawText} {bytes : ByteArray}
      (h : .file name bytes ∈ entries) : At entries [name] (.file bytes)
  | inside {entries inner : List FileEntry} {name : RawText} {names : List RawText}
      {target : Target} (h : .directory name inner ∈ entries) (hinner : At inner names target) :
      At entries (name :: names) target

variable {entries inner : List FileEntry} {names rest : List RawText} {target : Target}

theorem At.ne_nil {bytes : ByteArray} (h : At entries names (.file bytes)) : names ≠ [] := by
  rintro rfl
  cases h

theorem At.append (h : At entries names (.directory inner)) (hrest : At inner rest target) :
    At entries (names ++ rest) target := by
  generalize hd : Target.directory inner = d at h
  induction h with
  | here =>
    cases hd
    exact hrest
  | file _ => cases hd
  | inside h _ ih => exact .inside h (ih hd)

/-- In a directory there is one entry for each name, so that there is one target behind names. -/
theorem At.eq {target' : Target} (hdistinct : DistinctNames entries) (h : At entries names target)
    (h' : At entries names target') : target = target' := by
  induction h with
  | here =>
    cases h'
    rfl
  | @file entries name bytes h =>
    cases h' with
    | file h' =>
      cases List.inj_on_of_nodup_map hdistinct.nodup h h' rfl
      rfl
    | inside h' _ => cases List.inj_on_of_nodup_map hdistinct.nodup h h' rfl
  | @inside entries inner name names target h _ ih =>
    cases h' with
    | file h' => cases List.inj_on_of_nodup_map hdistinct.nodup h h' rfl
    | inside h' hinner' =>
      cases List.inj_on_of_nodup_map hdistinct.nodup h h' rfl
      exact ih (hdistinct.directory h) hinner'

theorem At.distinctNames (hdistinct : DistinctNames entries)
    (h : At entries names (.directory inner)) : DistinctNames inner := by
  generalize hd : Target.directory inner = d at h
  induction h with
  | here =>
    cases hd
    exact hdistinct
  | file _ => cases hd
  | inside h _ ih => exact ih (hdistinct.directory h) hd

/-- Behind the names of a directory stands what stands in it. -/
theorem at_append_iff (hdistinct : DistinctNames entries)
    (h : At entries names (.directory inner)) :
    At entries (names ++ rest) target ↔ At inner rest target := by
  refine ⟨?_, h.append⟩
  generalize hd : Target.directory inner = d at h
  induction h with
  | here =>
    cases hd
    exact id
  | file _ => cases hd
  | @inside entries inner name names target h _ ih =>
    intro hat
    rw [List.cons_append] at hat
    generalize hbehind : names ++ rest = behind at hat
    cases hat with
    | file h' => cases List.inj_on_of_nodup_map hdistinct.nodup h h' rfl
    | inside h' hinner' =>
      cases List.inj_on_of_nodup_map hdistinct.nodup h h' rfl
      subst hbehind
      exact ih (hdistinct.directory h) hd hinner'

/-! ### Files met -/

variable {ignored : RawText → Bool}

theorem mem_groups {group : RawText × List Found} :
    group ∈ groups ignored entries ↔ ∃ e ∈ entries, (e.name, filesOf ignored e) = group := by
  induction entries with
  | nil => simp [groups]
  | cons e es ih => simp [groups, ih, eq_comm]

theorem filesOf_directory (ignored : RawText → Bool) (name : RawText) (entries : List FileEntry) :
    filesOf ignored (.directory name entries) =
      if ignored name then []
      else (walk ignored entries).map fun f => { f with names := name :: f.names } := by
  rw [filesOf, walk, List.map_flatMap]

theorem mem_walk_iff_exists_entry {f : Found} :
    f ∈ walk ignored entries ↔ ∃ e ∈ entries, f ∈ filesOf ignored e := by
  simp only [walk, List.mem_flatMap, List.mem_mergeSort, mem_groups]
  constructor
  · rintro ⟨_, ⟨e, he, rfl⟩, hf⟩
    exact ⟨e, he, hf⟩
  · rintro ⟨e, he, hf⟩
    exact ⟨_, ⟨e, he, rfl⟩, hf⟩

/-- A walk meets the files of a directory, and behind its name those of a directory below it. -/
theorem mem_walk {f : Found} :
    f ∈ walk ignored entries ↔
      (∃ name bytes, .file name bytes ∈ entries ∧ f = ⟨[name], bytes⟩) ∨
      ∃ name inner, .directory name inner ∈ entries ∧ ignored name = false ∧
        ∃ f' ∈ walk ignored inner, f = { f' with names := name :: f'.names } := by
  rw [mem_walk_iff_exists_entry]
  constructor
  · rintro ⟨e, he, hf⟩
    cases e with
    | file name bytes => exact Or.inl ⟨name, bytes, he, by simpa [filesOf] using hf⟩
    | directory name inner =>
      rw [filesOf_directory] at hf
      split at hf
      · simp at hf
      · next hignored =>
        obtain ⟨f', hf', rfl⟩ := List.mem_map.mp hf
        exact Or.inr ⟨name, inner, he, by simpa using hignored, f', hf', rfl⟩
  · rintro (⟨name, bytes, he, rfl⟩ | ⟨name, inner, he, hignored, f', hf', rfl⟩)
    · exact ⟨_, he, by simp [filesOf]⟩
    · refine ⟨_, he, ?_⟩
      rw [filesOf_directory, if_neg (by simp [hignored])]
      exact List.mem_map_of_mem hf'

/-- A walk meets the files behind names none of which but the last is ignored. -/
theorem mem_walk_iff {f : Found} :
    f ∈ walk ignored entries ↔
      At entries f.names (.file f.bytes) ∧ ∀ name ∈ f.names.dropLast, ignored name = false := by
  constructor
  · intro hf
    -- By the names on the way: each directory passed takes the first one off.
    induction hnames : f.names generalizing entries f with
    | nil =>
      rcases mem_walk.mp hf with ⟨name, bytes, -, rfl⟩ | ⟨name, inner, -, -, f', -, rfl⟩
      · cases hnames
      · cases hnames
    | cons first rest ih =>
      rcases mem_walk.mp hf with ⟨name, bytes, he, rfl⟩ | ⟨name, inner, he, hname, f', hf', rfl⟩
      · cases hnames
        exact ⟨.file he, by simp⟩
      · cases hnames
        obtain ⟨hat, hrest⟩ := ih hf' rfl
        refine ⟨.inside he hat, ?_⟩
        rw [List.dropLast_cons_of_ne_nil hat.ne_nil]
        exact List.forall_mem_cons.mpr ⟨hname, hrest⟩
  · obtain ⟨names, bytes⟩ := f
    rintro ⟨hat, hignored⟩
    dsimp only at hat hignored
    generalize htarget : Target.file bytes = target at hat
    induction hat with
    | here => cases htarget
    | file h =>
      cases htarget
      exact mem_walk.mpr (.inl ⟨_, _, h, rfl⟩)
    | inside h hinner ih =>
      subst htarget
      rw [List.dropLast_cons_of_ne_nil hinner.ne_nil, List.forall_mem_cons] at hignored
      exact mem_walk.mpr (.inr ⟨_, _, h, hignored.1, _, ih hignored.2 rfl, rfl⟩)

theorem holdsFile_iff_exists_at :
    HoldsFile entries names ↔ ∃ bytes, At entries names (.file bytes) := by
  constructor
  · intro h
    induction h with
    | file h => exact ⟨_, .file h⟩
    | directory h _ ih =>
      obtain ⟨bytes, hat⟩ := ih
      exact ⟨bytes, .inside h hat⟩
  · rintro ⟨bytes, hat⟩
    generalize htarget : Target.file bytes = target at hat
    induction hat with
    | here => cases htarget
    | file h => exact .file h
    | inside h _ ih => exact .directory h (ih htarget)

/-- The regular files are those that a walk through all directories meets. -/
theorem holdsFile_iff_mem_walk :
    HoldsFile entries names ↔ ∃ f ∈ walk (fun _ => false) entries, f.names = names := by
  rw [holdsFile_iff_exists_at]
  constructor
  · rintro ⟨bytes, hat⟩
    exact ⟨⟨names, bytes⟩, mem_walk_iff.mpr ⟨hat, fun _ _ => rfl⟩, rfl⟩
  · rintro ⟨f, hf, rfl⟩
    exact ⟨f.bytes, (mem_walk_iff.mp hf).1⟩

/-! ### Their order -/

theorem exists_names_eq_cons {e : FileEntry} {f : Found} (hf : f ∈ filesOf ignored e) :
    ∃ rest, f.names = e.name :: rest := by
  cases e with
  | file name bytes =>
    obtain rfl : f = ⟨[name], bytes⟩ := by simpa [filesOf] using hf
    exact ⟨[], rfl⟩
  | directory name inner =>
    rw [filesOf_directory] at hf
    split at hf
    · cases hf
    · obtain ⟨f', -, rfl⟩ := List.mem_map.mp hf
      exact ⟨f'.names, rfl⟩

theorem map_fst_groups (ignored : RawText → Bool) (entries : List FileEntry) :
    (groups ignored entries).map (·.1) = entries.map (·.name) := by
  induction entries with
  | nil => rfl
  | cons e es ih => rw [groups, List.map_cons, List.map_cons, ih]

/-- The names by which a walk takes the entries of a directory go up. -/
theorem pairwise_groups (h : (entries.map (·.name)).Nodup) :
    ((groups ignored entries).mergeSort fun a b => a.1 ≤ b.1).Pairwise fun a b => a.1 < b.1 := by
  have hle : ((groups ignored entries).mergeSort fun a b => a.1 ≤ b.1).Pairwise
      fun a b => a.1 ≤ b.1 := by
    have hsorted := @List.pairwise_mergeSort _ (fun a b : RawText × List Found => a.1 ≤ b.1)
      (fun a b c hab hbc => by
        simpa using RawText.le_trans (of_decide_eq_true hab) (of_decide_eq_true hbc))
      (fun a b => by simpa using RawText.le_total a.1 b.1) (groups ignored entries)
    exact hsorted.imp of_decide_eq_true
  have hne : ((groups ignored entries).mergeSort fun a b => a.1 ≤ b.1).Pairwise
      fun a b => a.1 ≠ b.1 := by
    rw [← map_fst_groups ignored] at h
    exact ((List.mergeSort_perm _ _).pairwise_iff Ne.symm).mpr (List.pairwise_map.mp h)
  refine (hle.and hne).imp fun {a b} hab => ?_
  by_contra hnot
  exact hab.2 (RawText.le_antisymm hab.1 (RawText.not_lt.mp hnot))

/-- **A walk goes depth first and by name.** -/
theorem pairwise_walk (ignored : RawText → Bool) (h : DistinctNames entries) :
    (walk ignored entries).Pairwise fun f g => f.names < g.names := by
  induction h with
  | @intro entries nodup below ih =>
    refine List.pairwise_flatMap.mpr ⟨fun group hgroup => ?_, ?_⟩
    · obtain ⟨e, he, rfl⟩ := mem_groups.mp (List.mem_mergeSort.mp hgroup)
      cases e with
      | file name bytes => simp [filesOf]
      | directory name inner =>
        rw [filesOf_directory]
        split
        · exact .nil
        · refine List.pairwise_map.mpr ((ih name inner he).imp fun hlt => ?_)
          exact List.cons_lt_cons_iff.mpr (.inr ⟨rfl, hlt⟩)
    · refine (pairwise_groups nodup).imp_of_mem fun {a b} ha hb hlt f hf g hg => ?_
      obtain ⟨d, -, rfl⟩ := mem_groups.mp (List.mem_mergeSort.mp ha)
      obtain ⟨e, -, rfl⟩ := mem_groups.mp (List.mem_mergeSort.mp hb)
      obtain ⟨fs, hfs⟩ := exists_names_eq_cons hf
      obtain ⟨gs, hgs⟩ := exists_names_eq_cons hg
      rw [hfs, hgs]
      exact List.cons_lt_cons_iff.mpr (.inl hlt)

end ScriptAtlas.FileTree
