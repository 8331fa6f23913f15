import Mathlib.Data.List.Forall2
import ScriptAtlas.Proofs.CanonicalPath
import ScriptAtlas.Proofs.LastPart
import ScriptAtlas.Proofs.ManifestReading
import ScriptAtlas.Proofs.PrettyText

/-! # The shape of manifests

A manifest is a list of entries that is not empty; an entry is a pair of texts, or an object with
one id and one content among its fields (`IsEntry`). Whatever way a value is written, it is loaded
if and only if it is a manifest, each entry becomes a file (`IsFileOf`), and files that have been
loaded are loaded again from what is written of them (`parse_spelled_shape`). -/

namespace ScriptAtlas.Manifest

open Json

/-! ### Entries -/

/-- Of the keys in question one occurs, once, and with a text. -/
def OnlyText (keys : List String) (fs : List (String × Json)) (s : String) : Prop :=
  ∃ key, fs.filter (fun field => field.1 ∈ keys) = [(key, .text s)]

/-- The values that are entries, with their id and content. -/
inductive IsEntry : Json → String → String → Prop where
  | pair (id content : String) : IsEntry (.list [.text id, .text content]) id content
  | object {fs : List (String × Json)} {id content : String} (hid : OnlyText ["id", "path"] fs id)
      (hcontent : OnlyText ["content"] fs content) : IsEntry (.object fs) id content

variable {v : Json} {vs : List Json} {fs : List (String × Json)} {id content s : String}

/-- A text that has been read, or is read from the fields with its keys. -/
def slot : Option String → List (String × Json) → Option (Option String)
  | o, [] => some o
  | none, (_, v) :: fs => v.text?.bind fun s => slot (some s) fs
  | some _, _ :: _ => none

theorem slot_none_eq_some_iff : slot none fs = some (some s) ↔ ∃ key, fs = [(key, .text s)] := by
  match fs with
  | [] => simp [slot]
  | [(key, v)] => cases v <;> simp [slot, text?]
  | (key, v) :: field :: fs => cases v <;> simp [slot, text?]

/-- The id and the content are read from their fields, each by itself. -/
theorem scan_eq (read : Fields) (fs : List (String × Json)) :
    scan read fs =
      (slot read.id (fs.filter fun field => field.1 ∈ ["id", "path"])).bind fun id =>
        (slot read.content (fs.filter fun field => field.1 ∈ ["content"])).bind fun content =>
          some ⟨id, content⟩ := by
  induction fs generalizing read with
  | nil => rfl
  | cons field fs ih =>
    obtain ⟨key, v⟩ := field
    obtain ⟨id, content⟩ := read
    unfold scan
    by_cases hid : key = "id" ∨ key = "path"
    · have hcontent : key ≠ "content" := by
        rintro rfl
        simp at hid
      rw [if_pos (by simpa using hid), List.filter_cons_of_pos (by simpa using hid),
        List.filter_cons_of_neg (by simpa using hcontent)]
      cases id with
      | some id => rfl
      | none =>
        cases hv : v.text? with
        | none => simp [slot, hv]
        | some s => simpa [slot, hv] using ih ⟨some s, content⟩
    · rw [if_neg (by simpa using hid), List.filter_cons_of_neg (by simpa using hid)]
      by_cases hcontent : key = "content"
      · rw [if_pos hcontent, List.filter_cons_of_pos (by simpa using hcontent)]
        cases content with
        | some content => simp [slot]
        | none =>
          cases hv : v.text? with
          | none => simp [slot, hv]
          | some s => simpa [slot, hv] using ih ⟨id, some s⟩
      · rw [if_neg hcontent, List.filter_cons_of_neg (by simpa using hcontent)]
        exact ih ⟨id, content⟩

theorem entryOf?_object_eq_some_iff : entryOf? (.object fs) = some (id, content) ↔
    OnlyText ["id", "path"] fs id ∧ OnlyText ["content"] fs content := by
  unfold entryOf? OnlyText
  dsimp only
  rw [scan_eq, ← slot_none_eq_some_iff, ← slot_none_eq_some_iff]
  simp [Option.bind_eq_some_iff]

theorem entryOf?_eq_some_iff : entryOf? v = some (id, content) ↔ IsEntry v id content := by
  constructor
  · intro h
    match v with
    | .list [v, w] =>
      cases v <;> cases w <;> cases h
      exact .pair id content
    | .object fs =>
      obtain ⟨hid, hcontent⟩ := entryOf?_object_eq_some_iff.mp h
      exact .object hid hcontent
  · rintro (⟨id, content⟩ | ⟨hid, hcontent⟩)
    · rfl
    · exact entryOf?_object_eq_some_iff.mpr ⟨hid, hcontent⟩

/-! ### Files -/

/-- The part of an id behind its last slash. -/
def IsLastPart (name id : String) : Prop :=
  '/' ∉ name.toList ∧ (id = name ∨ ∃ directory, id = directory ++ "/" ++ name)

/-- The file of an entry. -/
structure IsFileOf (v : Json) (file : SourceFile) : Prop where
  isEntry : ∃ id, IsEntry v id file.content ∧ file.id = Path.normalize id
  isLastPart : IsLastPart file.displayName file.id

theorem isLastPart_iff {name : String} : IsLastPart name id ↔ name = Path.baseName id := by
  unfold IsLastPart Path.baseName
  constructor
  · rintro ⟨hname, rfl | ⟨directory, rfl⟩⟩
    · rw [Text.afterLast_of_not_mem hname, String.ofList_toList]
    · have hid : (directory ++ "/" ++ name).toList = directory.toList ++ '/' :: name.toList := by
        simp
      rw [hid, Text.afterLast_append hname, String.ofList_toList]
  · rintro rfl
    rw [String.toList_ofList]
    refine ⟨Text.not_mem_afterLast '/' id.toList, ?_⟩
    rcases Text.eq_afterLast_or '/' id.toList with h | ⟨directory, h⟩
    · left
      rw [← h, String.ofList_toList]
    · right
      refine ⟨String.ofList directory, String.toList_injective ?_⟩
      simpa using h

theorem isFileOf_iff {file : SourceFile} :
    IsFileOf v file ↔ ∃ e, entryOf? v = some e ∧ .of (Path.normalize e.1) e.2 = file := by
  constructor
  · rintro ⟨⟨id, hentry, hid⟩, hname⟩
    refine ⟨(id, file.content), entryOf?_eq_some_iff.mpr hentry, ?_⟩
    rw [isLastPart_iff, hid] at hname
    obtain ⟨fileId, displayName, content⟩ := file
    subst hid hname
    rfl
  · rintro ⟨⟨id, content⟩, hentry, rfl⟩
    exact ⟨⟨id, entryOf?_eq_some_iff.mp hentry, rfl⟩, isLastPart_iff.mpr rfl⟩

/-! ### Manifests -/

/-- A list of entries that is not empty. -/
def IsManifest (v : Json) : Prop :=
  ∃ items, v = .list items ∧ items ≠ [] ∧ ∀ item ∈ items, ∃ id content, IsEntry item id content

/-- The files of entries. -/
def filesOf (es : List (String × String)) : List SourceFile :=
  es.map fun e => .of (Path.normalize e.1) e.2

theorem mapM_entryOf?_cons {v : Json} {es : List (String × String)}
    (h : (v :: vs).mapM entryOf? = some es) :
    ∃ e rest, entryOf? v = some e ∧ vs.mapM entryOf? = some rest ∧ e :: rest = es := by
  rw [List.mapM_cons] at h
  obtain ⟨e, he, h⟩ := Option.bind_eq_some_iff.mp h
  obtain ⟨rest, hrest, h⟩ := Option.bind_eq_some_iff.mp h
  exact ⟨e, rest, he, hrest, Option.some.inj h⟩

theorem forall₂_isFileOf_iff {files : List SourceFile} :
    List.Forall₂ IsFileOf vs files ↔ ∃ es, vs.mapM entryOf? = some es ∧ filesOf es = files := by
  induction vs generalizing files with
  | nil =>
    rw [List.forall₂_nil_left_iff]
    exact ⟨fun h => ⟨[], rfl, h.symm⟩, fun ⟨es, hes, hfiles⟩ => by cases hes; exact hfiles.symm⟩
  | cons v vs ih =>
    rw [List.forall₂_cons_left_iff]
    constructor
    · rintro ⟨file, files, hfile, hfiles, rfl⟩
      obtain ⟨e, he, rfl⟩ := isFileOf_iff.mp hfile
      obtain ⟨es, hes, rfl⟩ := ih.mp hfiles
      refine ⟨e :: es, ?_, rfl⟩
      rw [List.mapM_cons, he, hes]
      rfl
    · rintro ⟨es, hes, rfl⟩
      obtain ⟨e, rest, he, hrest, rfl⟩ := mapM_entryOf?_cons hes
      exact ⟨_, _, isFileOf_iff.mpr ⟨e, he, rfl⟩, ih.mpr ⟨rest, hrest, rfl⟩, rfl⟩

theorem exists_mapM_entryOf?_iff :
    (∃ es, vs.mapM entryOf? = some es) ↔ ∀ v ∈ vs, ∃ id content, IsEntry v id content := by
  induction vs with
  | nil => simp
  | cons v vs ih =>
    rw [List.forall_mem_cons, ← ih]
    simp only [← entryOf?_eq_some_iff]
    constructor
    · rintro ⟨es, hes⟩
      obtain ⟨⟨id, content⟩, rest, he, hrest, -⟩ := mapM_entryOf?_cons hes
      exact ⟨⟨id, content, he⟩, rest, hrest⟩
    · rintro ⟨⟨id, content, he⟩, es, hes⟩
      exact ⟨(id, content) :: es, by rw [List.mapM_cons, he, hes]; rfl⟩

theorem isManifest_iff : IsManifest v ↔ ∃ e es, entriesOf? v = some (e :: es) := by
  constructor
  · rintro ⟨items, rfl, hne, hitems⟩
    obtain ⟨es, hes⟩ := exists_mapM_entryOf?_iff.mpr hitems
    obtain ⟨item, items, rfl⟩ := List.exists_cons_of_ne_nil hne
    obtain ⟨e, rest, -, -, rfl⟩ := mapM_entryOf?_cons hes
    exact ⟨e, rest, hes⟩
  · rintro ⟨e, es, h⟩
    cases v with
    | list items =>
      refine ⟨items, rfl, ?_, exists_mapM_entryOf?_iff.mp ⟨e :: es, h⟩⟩
      rintro rfl
      cases h
    | _ => cases h

/-! ### Loading -/

variable {text : String} (origin : String)

theorem yields_document_of_spelled (h : v.Spelled text) :
    Yields document text.toList (entriesOf? v) fun _ => True :=
  yields_document v (by rwa [List.append_nil])

theorem exists_run_document (h : v.Spelled text) {es : List (String × String)}
    (hv : entriesOf? v = some es) :
    ∃ cursor, document.run ⟨0, text.toList⟩ = .ok (es, cursor) := by
  have hyields := yields_document_of_spelled h
  rw [hv] at hyields
  obtain ⟨rest, hreads, -⟩ := hyields
  obtain ⟨pos, hrun⟩ := hreads 0
  exact ⟨⟨pos, rest⟩, hrun⟩

theorem parse_of_some (h : v.Spelled text) {e : String × String} {es : List (String × String)}
    (hv : entriesOf? v = some (e :: es)) : parse origin text = .ok (filesOf (e :: es)) := by
  obtain ⟨cursor, hrun⟩ := exists_run_document h hv
  unfold parse
  rw [hrun]
  rfl

theorem parse_of_nil (h : v.Spelled text) (hv : entriesOf? v = some []) :
    parse origin text = .error (.nothingFound origin) := by
  obtain ⟨cursor, hrun⟩ := exists_run_document h hv
  unfold parse
  rw [hrun]
  rfl

theorem parse_of_none (h : v.Spelled text) (hv : entriesOf? v = none) :
    ∃ cause, parse origin text = .error (.invalidManifest origin cause) := by
  have hyields := yields_document_of_spelled h
  rw [hv] at hyields
  obtain ⟨e, hrun⟩ := hyields 0
  refine ⟨e.message text, ?_⟩
  unfold parse
  rw [hrun]
  rfl

theorem parse_eq_ok_iff (h : v.Spelled text) {files : List SourceFile} :
    parse origin text = .ok files ↔
      ∃ e es, entriesOf? v = some (e :: es) ∧ filesOf (e :: es) = files := by
  cases hv : entriesOf? v with
  | none =>
    obtain ⟨cause, hparse⟩ := parse_of_none origin h hv
    simp [hparse]
  | some es =>
    cases es with
    | nil => simp [parse_of_nil origin h hv]
    | cons e es => simp [parse_of_some origin h hv]

/-- Files as a list of objects. -/
def listed (files : List SourceFile) : Json :=
  .list (files.map fun file => .object [("id", .text file.id),
    ("displayName", .text file.displayName), ("content", .text file.content)])

theorem sound_listed (files : List SourceFile) : (listed files).Sound := by
  refine .list fun v hv => ?_
  obtain ⟨file, -, rfl⟩ := List.mem_map.mp hv
  exact .object (by simp [Sound.text])

theorem entriesOf?_listed (files : List SourceFile) :
    entriesOf? (listed files) = some (files.map fun file => (file.id, file.content)) := by
  unfold listed entriesOf?
  dsimp only
  induction files with
  | nil => rfl
  | cons file files ih =>
    rw [List.map_cons, List.mapM_cons, ih]
    rfl

/-- The files of entries do not change when they are written and loaded once more. -/
theorem filesOf_listed (es : List (String × String)) :
    filesOf ((filesOf es).map fun file => (file.id, file.content)) = filesOf es := by
  unfold filesOf
  rw [List.map_map, List.map_map]
  refine List.map_congr_left fun e _ => ?_
  show SourceFile.of (Path.normalize (Path.normalize e.1)) e.2 = _
  rw [Path.normalize_normalize]

theorem entriesOf?_eq_nil (h : entriesOf? v = some []) : v = .list [] := by
  cases v with
  | list items =>
    cases items with
    | nil => rfl
    | cons item items =>
      obtain ⟨e, rest, -, -, hnil⟩ := mapM_entryOf?_cons h
      cases hnil
  | _ => cases h

theorem parse_listed (h : v.Spelled text) {files : List SourceFile}
    (hfiles : parse origin text = .ok files) (place again : String)
    (hagain : (listed files).Spelled again) : parse place again = .ok files := by
  obtain ⟨e, es, -, rfl⟩ := (parse_eq_ok_iff origin h).mp hfiles
  have hloaded := parse_of_some place hagain (entriesOf?_listed _)
  rw [hloaded]
  exact congrArg Except.ok (filesOf_listed (e :: es))

/-- **Exactly the manifests are loaded**, in whatever way they are written, and what has been loaded
can be written and loaded again. The empty list is reported as such. -/
theorem parse_spelled_shape (v : Json) (text origin : String) (h : v.Spelled text) :
    ((∃ files, parse origin text = .ok files) ↔ IsManifest v) ∧
    (∀ files, parse origin text = .ok files →
      ∃ items, v = .list items ∧ List.Forall₂ IsFileOf items files) ∧
    (v = .list [] → parse origin text = .error (.nothingFound origin)) ∧
    (v ≠ .list [] → ¬ IsManifest v →
      ∃ cause, parse origin text = .error (.invalidManifest origin cause)) ∧
    ∀ files, parse origin text = .ok files →
      (listed files).Spelled (listed files).pretty ∧
      ∀ place again, (listed files).Spelled again → parse place again = .ok files := by
  refine ⟨⟨?_, fun hv => ?_⟩, fun files hfiles => ?_, ?_, fun hempty hnot => ?_,
    fun files hfiles => ⟨?_, parse_listed origin h hfiles⟩⟩
  · rintro ⟨files, hfiles⟩
    obtain ⟨e, es, hv, -⟩ := (parse_eq_ok_iff origin h).mp hfiles
    exact isManifest_iff.mpr ⟨e, es, hv⟩
  · obtain ⟨e, es, hes⟩ := isManifest_iff.mp hv
    exact ⟨_, parse_of_some origin h hes⟩
  · obtain ⟨e, es, hv, hes⟩ := (parse_eq_ok_iff origin h).mp hfiles
    cases v with
    | list items => exact ⟨items, rfl, forall₂_isFileOf_iff.mpr ⟨e :: es, hv, hes⟩⟩
    | _ => cases hv
  · rintro rfl
    exact parse_of_nil origin h rfl
  · cases hv : entriesOf? v with
    | none => exact parse_of_none origin h hv
    | some es =>
      cases es with
      | nil => exact absurd (entriesOf?_eq_nil hv) hempty
      | cons e es => exact absurd (isManifest_iff.mpr ⟨e, es, hv⟩) hnot
  · simpa using (sound_listed files).spelled_pretty "" (by simp [Gap])

/-- One entry, under the other key of ids, with a field that is ignored. -/
def oneEntry : Json :=
  .list [.object [("id\x00", .list [.object [], .null]), ("path", .text "./a/../b\n"),
    ("content", .text "\"")]]

theorem parse_spelled_shape_oneEntry :
    oneEntry.Spelled (oneEntry.pretty ++ "\r\n") ∧
      ∃ files, parse "files.json" (oneEntry.pretty ++ "\r\n") = .ok files := by
  have hsound : oneEntry.Sound := by
    refine .list fun v hv => ?_
    obtain rfl := List.mem_singleton.mp hv
    refine .object ?_
    simp only [List.forall_mem_cons, Sound.text, List.not_mem_nil, false_implies, implies_true,
      and_true]
    exact .list (by simp [Sound.null, Sound.object])
  have hspelled := hsound.spelled_pretty "\r\n" (by simp [Gap])
  have hmanifest : IsManifest oneEntry := by
    refine ⟨_, rfl, by simp, fun item hitem => ?_⟩
    obtain rfl := List.mem_singleton.mp hitem
    exact ⟨"./a/../b\n", "\"", .object ⟨"path", by simp⟩ ⟨"content", by simp⟩⟩
  exact ⟨hspelled, (parse_spelled_shape oneEntry _ "files.json" hspelled).1.mpr hmanifest⟩

end ScriptAtlas.Manifest
