import ScriptAtlas.Function.Query
import ScriptAtlas.Proofs.FirstOfEach

/-! # What a function depends on

The files are read in two goes, up to the file with the function asked for and then the others, and
the names met are kept along the way. Neither shows in the answer: the indexes of both goes together
are those of all files (`indexes_search_append`), and keeping names picks the first function of each
name (`calledBy_eq`). So the answer is the one that the list of all named functions gives at once
(`dependencies_eq`, `dependencies_exact`). -/

namespace ScriptAtlas.Function

/-! ### The first function of each name -/

theorem firstByName_concat (seen : List String) (fs : List Named) (f : Named) :
    firstByName seen (fs ++ [f]) =
      firstByName seen fs ++ if f.name ∈ seen ∨ f.name ∈ fs.map (·.name) then [] else [f] := by
  induction fs generalizing seen with
  | nil => by_cases hf : f.name ∈ seen <;> simp [firstByName, hf]
  | cons g fs ih =>
    rw [List.cons_append, firstByName, firstByName]
    by_cases hg : g.name ∈ seen
    · have hor : f.name ∈ seen ∨ f.name ∈ fs.map (·.name) ↔
          f.name ∈ seen ∨ f.name ∈ (g :: fs).map (·.name) := by
        rw [List.map_cons, List.mem_cons]
        constructor
        · rintro (h | h) <;> simp [h]
        · rintro (h | h | h)
          · exact Or.inl h
          · exact Or.inl (h ▸ hg)
          · exact Or.inr h
      rw [if_pos (by simpa using hg), if_pos (by simpa using hg), ih, if_congr hor rfl rfl]
    · have hor : f.name ∈ g.name :: seen ∨ f.name ∈ fs.map (·.name) ↔
          f.name ∈ seen ∨ f.name ∈ (g :: fs).map (·.name) := by
        rw [List.map_cons, List.mem_cons, List.mem_cons, or_assoc, or_left_comm]
      rw [if_neg (by simpa using hg), if_neg (by simpa using hg), ih, if_congr hor rfl rfl,
        List.cons_append]

/-- Keeping the names met picks the first function of each name. -/
theorem firstByName_eq (seen : List String) (fs : List Named) :
    firstByName seen fs = (firstOfEach Named.name fs).filter (·.name ∉ seen) := by
  induction fs using List.reverseRecOn with
  | nil => rfl
  | append_singleton fs f ih =>
    rw [firstByName_concat, ih, firstOfEach_concat, List.filter_append]
    by_cases hf : f.name ∈ fs.map (·.name)
    · simp [hf]
    · by_cases hseen : f.name ∈ seen <;> simp [hf, hseen]

/-! ### Called functions -/

/-- What is told of a function that another one calls. -/
def Named.dependency (f : Named) : Dependency := ⟨f.name, f.content, f.file⟩

theorem calledBy_eq_map_firstByName (calls seen : List String) (fs : List Named) :
    calledBy calls seen fs =
      (firstByName seen (fs.filter (calls.contains ·.name))).map Named.dependency := by
  induction fs generalizing seen with
  | nil => rfl
  | cons f fs ih =>
    rw [calledBy]
    by_cases hcall : calls.contains f.name = true
    · rw [List.filter_cons_of_pos (by exact hcall), firstByName]
      by_cases hseen : seen.contains f.name = true
      · rw [if_neg (by rw [hseen]; simp), if_pos hseen, ih]
      · rw [if_pos (by rw [hcall]; simpa using hseen), if_neg hseen, ih, List.map_cons,
          Named.dependency]
    · rw [List.filter_cons_of_neg (by exact hcall),
        if_neg (by rw [Bool.and_eq_true]; exact fun h => hcall h.1), ih]

theorem calledBy_eq (calls seen : List String) (fs : List Named) :
    calledBy calls seen fs =
      ((firstOfEach Named.name fs).filter fun f => f.name ∉ seen ∧ f.name ∈ calls).map
        Named.dependency := by
  rw [calledBy_eq_map_firstByName, firstByName_eq, firstOfEach_filter, List.filter_filter]
  simp

/-! ### Two goes over the files -/

section Reading

variable (read : SourceFile → Option Index) (t : String)

/-- The search ends with the first function of the name in all files. -/
theorem found_searchTarget (files : List SourceFile) :
    (searchTarget read t files).found =
      (namedByIndexes files (files.map read)).find? (·.name = t) := by
  induction files with
  | nil => rfl
  | cons file files ih =>
    have hcons : namedByIndexes (file :: files) ((file :: files).map read) =
        ((read file).map (·.named file)).getD [] ++ namedByIndexes files (files.map read) := rfl
    rw [hcons, List.find?_append, ← ih, searchTarget]
    cases hread : read file with
    | none => rfl
    | some index =>
      cases hfind : (index.named file).find? (·.name = t) <;> simp [hfind]

/-- Up to where it ends, the search has the index of each file. -/
theorem indexes_searchTarget (files : List SourceFile) :
    ∃ n ≤ files.length, (searchTarget read t files).indexes = (files.take n).map read := by
  induction files with
  | nil => exact ⟨0, Nat.le_refl 0, rfl⟩
  | cons file files ih =>
    rw [searchTarget]
    split
    · exact ⟨1, by simp, by simp⟩
    · obtain ⟨n, hn, hindexes⟩ := ih
      exact ⟨n + 1, by simpa using hn, by simp [hindexes]⟩

/-- The indexes of the search and those of the files behind it are the indexes of all files. -/
theorem indexes_search_append (files : List SourceFile) :
    let indexes := (searchTarget read t files).indexes
    indexes ++ (files.drop indexes.length).map read = files.map read := by
  intro indexes
  obtain ⟨n, hn, hindexes⟩ : ∃ n ≤ files.length, indexes = (files.take n).map read :=
    indexes_searchTarget read t files
  have hlength : indexes.length = n := by
    rw [hindexes, List.length_map, List.length_take, Nat.min_eq_left hn]
  rw [hlength, hindexes, ← List.map_append, List.take_append_drop]

end Reading

theorem namedIn_eq_getD (file : SourceFile) :
    namedIn file = ((Index.ofFile? file).map (·.named file)).getD [] := by
  unfold namedIn
  cases Index.ofFile? file <;> rfl

theorem namedByIndexes_map (files : List SourceFile) :
    namedByIndexes files (files.map Index.ofFile?) = namedInAll files := by
  unfold namedByIndexes namedInAll
  induction files with
  | nil => rfl
  | cons file files ih =>
    rw [List.map_cons, List.zip_cons_cons, List.flatMap_cons, ih, List.flatMap_cons,
      namedIn_eq_getD]

/-! ### The answer -/

/-- The answer for `t` that a list of functions gives: the first one named `t`, and of those it
calls, itself apart, the first of each name. -/
def dependenciesIn (all : List Named) (t : String) : Dependencies :=
  match all.find? (·.name = t) with
  | none => ⟨none, none, []⟩
  | some g =>
    ⟨some g.content, some g.file,
      ((firstOfEach Named.name all).filter fun f => f.name ≠ t ∧ f.name ∈ g.calls).map
        Named.dependency⟩

theorem requireFiles_eq_ok {files : List SourceFile} (hfiles : files ≠ []) :
    requireFiles files = .ok () := if_neg (by simpa using hfiles)

theorem target_eq_ok {name : String} (hname : Text.trim name ≠ "") :
    target name = .ok (Text.trim name) := if_neg hname

theorem dependencies_eq {files : List SourceFile} {name : String} (hfiles : files ≠ [])
    (hname : Text.trim name ≠ "") :
    dependencies files name = .ok (dependenciesIn (namedInAll files) (Text.trim name)) := by
  simp only [dependencies, requireFiles_eq_ok hfiles, target_eq_ok hname, bind, Except.bind,
    found_searchTarget, indexes_search_append, namedByIndexes_map, calledBy_eq,
    List.mem_singleton]
  unfold dependenciesIn
  cases (namedInAll files).find? (·.name = Text.trim name) with
  | none => rfl
  | some g => rfl

section Answer

variable {all : List Named} {t c : String}

theorem dependenciesIn_of_find? {g : Named} (h : all.find? (·.name = t) = some g) :
    dependenciesIn all t = ⟨some g.content, some g.file,
      ((firstOfEach Named.name all).filter fun f => f.name ≠ t ∧ f.name ∈ g.calls).map
        Named.dependency⟩ := by
  rw [dependenciesIn, h]

theorem dependenciesIn_eq_none_iff :
    dependenciesIn all t = ⟨none, none, []⟩ ↔ ∀ f ∈ all, f.name ≠ t := by
  have hnone : all.find? (·.name = t) = none ↔ ∀ f ∈ all, f.name ≠ t := by simp
  rw [← hnone]
  cases h : all.find? (·.name = t) with
  | none => simp [dependenciesIn, h]
  | some g => simp [dependenciesIn, h]

theorem mem_names_dependenciesIn {g : Named} (h : all.find? (·.name = t) = some g) :
    c ∈ (dependenciesIn all t).dependencies.map (·.name) ↔
      c ≠ t ∧ c ∈ g.calls ∧ c ∈ all.map (·.name) := by
  have hfirst : c ∈ (firstOfEach Named.name all).map (·.name) ↔ c ∈ all.map (·.name) :=
    mem_map_firstOfEach
  rw [← hfirst, dependenciesIn_of_find? h]
  simp only [List.map_map, List.mem_map, List.mem_filter, Function.comp_apply, Named.dependency,
    decide_eq_true_eq]
  constructor
  · rintro ⟨f, ⟨hf, hne, hcalls⟩, rfl⟩
    exact ⟨hne, hcalls, f, hf, rfl⟩
  · rintro ⟨hne, hcalls, f, hf, rfl⟩
    exact ⟨f, ⟨hf, hne, hcalls⟩, rfl⟩

theorem nodup_names_dependenciesIn (all : List Named) (t : String) :
    ((dependenciesIn all t).dependencies.map (·.name)).Nodup := by
  cases h : all.find? (·.name = t) with
  | none => simp [dependenciesIn, h]
  | some g =>
    rw [dependenciesIn_of_find? h, List.map_map]
    exact (nodup_map_firstOfEach Named.name all).sublist (List.filter_sublist.map _)

end Answer

theorem mem_namedIn {file : SourceFile} {f : Named} :
    f ∈ namedIn file ↔ ∃ index, Index.ofFile? file = some index ∧ f ∈ index.named file := by
  rw [namedIn_eq_getD]
  cases Index.ofFile? file <;> simp

/-- A named function is told by the id of its file and the part of its text that it spans. -/
theorem file_content_of_mem_named {index : Index} {file : SourceFile} {f : Named}
    (h : f ∈ index.named file) :
    f.file = file.id ∧ f.content = Text.slice file.content f.span.start f.span.stop := by
  obtain ⟨e, -, he⟩ := List.mem_filterMap.mp h
  obtain ⟨name, -, rfl⟩ := Option.map_eq_some_iff.mp he
  exact ⟨rfl, rfl⟩

/-- **Dependencies are those that the list of all named functions gives.** There is no target just
if no function has the name; else it is the first that has it, and its dependencies are the
functions it calls, itself apart, in order, where of several with one name the first counts. Every
name that is called and defined in some file is there once. -/
theorem dependencies_exact (files : List SourceFile) (name : String) (hfiles : files ≠ [])
    (hname : Text.trim name ≠ "") :
    let t := Text.trim name
    let all := namedInAll files
    ∃ d, dependencies files name = .ok d ∧
      (d = ⟨none, none, []⟩ ↔ ∀ f ∈ all, f.name ≠ t) ∧
      (∀ g, all.find? (·.name = t) = some g →
        d.target = some g.content ∧ d.targetFile = some g.file ∧
        d.dependencies =
          ((firstOfEach Named.name all).filter fun f => f.name ≠ t ∧ f.name ∈ g.calls).map
            (fun f => ⟨f.name, f.content, f.file⟩) ∧
        (d.dependencies.map (·.name)).Nodup ∧
        ∀ c, c ∈ d.dependencies.map (·.name) ↔ c ≠ t ∧ c ∈ g.calls ∧ c ∈ all.map (·.name)) ∧
      ∀ f ∈ all, ∃ file ∈ files, (Index.ofFile? file).isSome ∧ f.file = file.id ∧
        f.content = Text.slice file.content f.span.start f.span.stop := by
  intro t all
  refine ⟨_, dependencies_eq hfiles hname, dependenciesIn_eq_none_iff, ?_, ?_⟩
  · intro g hg
    have hanswer := dependenciesIn_of_find? hg
    refine ⟨by rw [hanswer], by rw [hanswer], by rw [hanswer]; rfl,
      nodup_names_dependenciesIn all t, fun c => mem_names_dependenciesIn hg⟩
  · intro f hf
    obtain ⟨file, hfile, hf⟩ := List.mem_flatMap.mp hf
    obtain ⟨index, hindex, hnamed⟩ := mem_namedIn.mp hf
    exact ⟨file, hfile, by rw [hindex]; rfl, file_content_of_mem_named hnamed⟩

/-- The target stands behind a broken file; it calls itself, a function before and one behind it,
and one that is defined nowhere. -/
theorem dependencies_exact_between :
    let files : List SourceFile := [.of "a.ts" "function load() { }", .of "b.ts" "(",
      .of "c.ts" "function go() { step(); load(); go(); gone(); }",
      .of "d.ts" "const step = () => 1; function load() { }"]
    files ≠ [] ∧ Text.trim " go" ≠ "" ∧ ∃ d, dependencies files " go" = .ok d ∧
      d.target = some "function go() { step(); load(); go(); gone(); }" ∧
      d.targetFile = some "c.ts" ∧
      d.dependencies = [⟨"load", "function load() { }", "a.ts"⟩, ⟨"step", "() => 1", "d.ts"⟩] := by
  intro files
  have hne : files ≠ [] := List.cons_ne_nil _ _
  have hname : Text.trim " go" ≠ "" := by decide +kernel
  have htrim : Text.trim " go" = "go" := by decide +kernel
  have hall : namedInAll files =
      [⟨"load", "a.ts", ⟨0, 19⟩, "function load() { }", [], 1⟩,
        ⟨"go", "c.ts", ⟨0, 47⟩, "function go() { step(); load(); go(); gone(); }",
          ["gone", "go", "load", "step"], 1⟩,
        ⟨"step", "d.ts", ⟨13, 20⟩, "() => 1", [], 1⟩,
        ⟨"load", "d.ts", ⟨22, 41⟩, "function load() { }", [], 1⟩] := by decide +kernel
  obtain ⟨d, hd, -, hfound, -⟩ := dependencies_exact files " go" hne hname
  rw [hall, htrim] at hfound
  obtain ⟨htarget, hfile, hdependencies, -⟩ := hfound _ rfl
  exact ⟨hne, hname, d, hd, htarget, hfile, hdependencies⟩

end ScriptAtlas.Function
