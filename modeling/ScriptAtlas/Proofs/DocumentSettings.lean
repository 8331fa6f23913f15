import ScriptAtlas.Config
import ScriptAtlas.Proofs.DistinctKeys
import ScriptAtlas.Proofs.FileLookup

/-! # The settings of a document

A setting stands under a key of its section; where the section is written as a list, it stands at
its position there (`value?`). A configuration `Follows` such a way of finding values if it has
every value that is found and the default of every setting that has none. A document is read as a
whole: it is `IsReadable`, and then the configuration follows it, or it is not, and then all
settings have their defaults. The keys that no setting has are left out by `known`, and what is left
says the same.

The reading functions are compared with the document one setting at a time: `Takes` is what they do
with the value found for a setting, and by `ofEntries_eq_some_iff` they do nothing else. -/

namespace ScriptAtlas.Config

open Toml

/-! ### Settings -/

inductive Setting where
  | hubThreshold
  | extensions
  | entryPoints
  | includeDynamicImports
  | ignoredDirectories
  | presets
deriving DecidableEq, Repr

/-- The sections of a document. -/
def groups : List String := ["graph", "scan", "keywords"]

namespace Setting

def all : List Setting :=
  [.hubThreshold, .extensions, .entryPoints, .includeDynamicImports, .ignoredDirectories, .presets]

/-- The section of a setting. -/
def group : Setting → String
  | .hubThreshold | .extensions | .entryPoints | .includeDynamicImports => "graph"
  | .ignoredDirectories => "scan"
  | .presets => "keywords"

def key : Setting → String
  | .hubThreshold => "hub_threshold"
  | .extensions => "extensions"
  | .entryPoints => "entry_points"
  | .includeDynamicImports => "include_dynamic_imports"
  | .ignoredDirectories => "ignore_dirs"
  | .presets => "presets"

/-- The place of a setting in its section. -/
def position : Setting → Nat
  | .hubThreshold | .ignoredDirectories | .presets => 0
  | .extensions => 1
  | .entryPoints => 2
  | .includeDynamicImports => 3

end Setting

/-- The keys of a section. -/
def keysOf (group : String) : List String :=
  (Setting.all.filter (·.group = group)).map Setting.key

/-- A list of texts as a value. -/
def texts (ss : List String) : Value := .list (ss.map .text)

/-- Has the value the type and range of the setting? -/
def Setting.Admits : Setting → Value → Prop
  | .hubThreshold, v => ∃ n : Nat, n < Nat.pow 2 64 ∧ v = .integer n
  | .extensions, v | .entryPoints, v | .ignoredDirectories, v => ∃ ss, v = texts ss
  | .includeDynamicImports, v => ∃ b, v = .boolean b
  | .presets, v => ∃ entries, v = .table entries ∧ ∀ e ∈ entries, ∃ ss, e.2 = texts ss

/-- The configuration has the value for the setting. -/
def Has (c : Config) : Setting → Value → Prop
  | .hubThreshold, v => v = .integer c.graph.hubThreshold
  | .extensions, v => v = texts c.graph.extensions
  | .entryPoints, v => v = texts c.graph.entryPoints
  | .includeDynamicImports, v => v = .boolean c.graph.includeDynamicImports
  | .ignoredDirectories, v => v = texts c.ignoredDirectories
  | .presets, v => ∃ entries, v = .table entries ∧
      ∀ name, find? entries name = (c.preset? name).map texts

/-- Two configurations have the same setting. -/
def Agree (c d : Config) : Setting → Prop
  | .hubThreshold => c.graph.hubThreshold = d.graph.hubThreshold
  | .extensions => c.graph.extensions = d.graph.extensions
  | .entryPoints => c.graph.entryPoints = d.graph.entryPoints
  | .includeDynamicImports => c.graph.includeDynamicImports = d.graph.includeDynamicImports
  | .ignoredDirectories => c.ignoredDirectories = d.ignoredDirectories
  | .presets => c.presets = d.presets

/-- Every setting has the value found for it, or its default. -/
def Follows (c : Config) (found : Setting → Option Value) : Prop :=
  ∀ s, match found s with
    | some v => c.Has s v
    | none => c.Agree {} s

/-! ### Documents -/

variable {doc : List (String × Value)} {c : Config} {group : String} {s : Setting} {v : Value}

/-- The value under a key of a section. -/
def namedIn? (key : String) : Value → Option Value
  | .table entries => find? entries key
  | _ => none

/-- The value under a key of a section, or at a position in it. -/
def fieldIn? (key : String) (position : Nat) : Value → Option Value
  | .list items => items[position]?
  | v => namedIn? key v

/-- The value under the key of a setting. -/
def namedValue? (doc : List (String × Value)) (s : Setting) : Option Value :=
  (find? doc s.group).bind (namedIn? s.key)

/-- The value of a setting. -/
def value? (doc : List (String × Value)) (s : Setting) : Option Value :=
  (find? doc s.group).bind (fieldIn? s.key s.position)

/-- May a section be written so? -/
def IsSection : Value → Prop
  | .table _ | .list _ | .datetime => True
  | _ => False

/-- The entries of a table that are not under one of the keys have their numbers in range. -/
def OthersInRange (keys : List String) (entries : List (String × Value)) : Prop :=
  ∀ e ∈ entries, e.1 ∈ keys ∨ e.2.inRange = true

/-- The numbers under unknown keys are in range, in the document and in its sections. -/
def UnknownInRange (doc : List (String × Value)) : Prop :=
  OthersInRange groups doc ∧
    ∀ group ∈ groups, ∀ entries, find? doc group = some (.table entries) →
      OthersInRange (keysOf group) entries

/-- The document can be read: its sections are sections, its settings have values of their type and
range, and so have the numbers elsewhere. -/
structure IsReadable (doc : List (String × Value)) : Prop where
  sections : ∀ group ∈ groups, ∀ v, find? doc group = some v → IsSection v
  settings : ∀ s v, value? doc s = some v → s.Admits v
  unknown : UnknownInRange doc

/-! ### Reading values

Each reading function accepts exactly the values that stand for what it gives. -/

theorem mapM_eq_some_iff {α β : Type} {read : α → Option β} {write : β → α}
    (h : ∀ a b, read a = some b ↔ a = write b) {as : List α} {bs : List β} :
    as.mapM read = some bs ↔ as = bs.map write := by
  induction as generalizing bs with
  | nil => simp [eq_comm]
  | cons a as ih =>
    rw [List.mapM_cons]
    constructor
    · intro heq
      obtain ⟨b, hb, heq⟩ := Option.bind_eq_some_iff.mp heq
      obtain ⟨bs', hbs, heq⟩ := Option.bind_eq_some_iff.mp heq
      cases heq
      rw [List.map_cons, (h a b).mp hb, ih.mp hbs]
    · intro heq
      obtain ⟨b, bs, rfl, rfl, rfl⟩ := List.map_eq_cons_iff.mp heq.symm
      rw [(h _ b).mpr rfl, ih.mpr rfl]
      rfl

theorem readText_eq_some_iff {t : String} : readText v = some t ↔ v = .text t := by
  cases v <;> simp [readText]

theorem readTexts_eq_some_iff {ts : List String} : readTexts v = some ts ↔ v = texts ts := by
  cases v with
  | list items => simp [readTexts, texts, mapM_eq_some_iff fun _ _ => readText_eq_some_iff]
  | _ => simp [readTexts, texts]

theorem readBool_eq_some_iff {b : Bool} : readBool v = some b ↔ v = .boolean b := by
  cases v <;> simp [readBool]

theorem readCount_eq_some_iff {n : Nat} :
    readCount v = some n ↔ n < Nat.pow 2 64 ∧ v = .integer n := by
  cases v with
  | integer m =>
    simp only [readCount, Bool.and_eq_true, decide_eq_true_eq, Option.ite_none_right_eq_some,
      Option.some.injEq, Value.integer.injEq]
    omega
  | _ => simp [readCount]

theorem readPresets_eq_some_iff {ps : List (String × List String)} :
    readPresets v = some ps ↔ ∃ named : List (String × List String),
      v = .table (named.map fun p => (p.1, texts p.2)) ∧ ps = named.foldr insertPreset [] := by
  have hentry : ∀ (e : String × Value) (p : String × List String),
      (do return (e.1, ← readTexts e.2)) = some p ↔ e = (p.1, texts p.2) := by
    rintro ⟨name, w⟩ ⟨name', ts⟩
    constructor
    · intro heq
      obtain ⟨ts', hts, heq⟩ := Option.bind_eq_some_iff.mp heq
      cases heq
      exact congrArg (Prod.mk name) (readTexts_eq_some_iff.mp hts)
    · intro heq
      cases heq
      rw [readTexts_eq_some_iff.mpr rfl]
      rfl
  cases v with
  | table entries =>
    constructor
    · intro heq
      obtain ⟨named, hnamed, heq⟩ := Option.bind_eq_some_iff.mp heq
      cases heq
      exact ⟨named, by rw [(mapM_eq_some_iff hentry).mp hnamed], rfl⟩
    · rintro ⟨named, heq, rfl⟩
      cases heq
      rw [readPresets, (mapM_eq_some_iff hentry).mpr rfl]
      rfl
  | _ => simp [readPresets]

/-! ### Presets in their places -/

theorem mem_insertPreset {p q : String × List String} {ps : List (String × List String)} :
    q ∈ insertPreset p ps ↔ q = p ∨ q ∈ ps := by
  fun_induction insertPreset p ps with
  | case1 => simp
  | case2 => simp
  | case3 r rs hlt ih =>
    rw [List.mem_cons, ih, List.mem_cons]
    exact or_left_comm

theorem find?_insertPreset {p : String × List String} {ps : List (String × List String)}
    (h : ∀ q ∈ ps, q.1 ≠ p.1) (name : String) :
    find? (insertPreset p ps) name = find? (p :: ps) name := by
  fun_induction insertPreset p ps with
  | case1 => rfl
  | case2 => rfl
  | case3 r rs hlt ih =>
    obtain ⟨hr, hrs⟩ := List.forall_mem_cons.mp h
    rw [find?_cons, ih hrs, find?_cons, find?_cons, find?_cons]
    by_cases hname : r.1 = name
    · rw [if_pos hname, if_pos hname, if_neg fun hp => hr (hname.trans hp.symm)]
    · rw [if_neg hname, if_neg hname]

theorem mem_foldr_insertPreset {named : List (String × List String)} {q : String × List String} :
    q ∈ named.foldr insertPreset [] ↔ q ∈ named := by
  induction named with
  | nil => rfl
  | cons p ps ih => rw [List.foldr_cons, mem_insertPreset, ih, List.mem_cons]

/-- Putting presets into their places does not change which list a name stands for. -/
theorem find?_foldr_insertPreset {named : List (String × List String)}
    (h : (named.map (·.1)).Nodup) (name : String) :
    find? (named.foldr insertPreset []) name = find? named name := by
  induction named with
  | nil => rfl
  | cons p ps ih =>
    rw [List.map_cons, List.nodup_cons] at h
    rw [List.foldr_cons, find?_insertPreset, find?_cons, find?_cons, ih h.2]
    intro q hq heq
    exact h.1 (heq ▸ List.mem_map_of_mem (mem_foldr_insertPreset.mp hq))

theorem find?_map {α β : Type} (f : String → α → β) (entries : List (String × α)) (key : String) :
    find? (entries.map fun e => (e.1, f e.1 e.2)) key = (find? entries key).map (f key) := by
  induction entries with
  | nil => rfl
  | cons e es ih =>
    rw [List.map_cons, find?_cons, find?_cons, ih]
    by_cases h : e.1 = key <;> simp [h]

/-! ### Reading sections -/

/-- The section may be written so, and the numbers under keys that it does not have are in range. -/
def IsSectionOf (keys : List String) (v : Value) : Prop :=
  IsSection v ∧ ∀ entries, v = .table entries → OthersInRange keys entries

theorem exists_fieldsOf_iff {keys : List String} :
    (∃ fields, fieldsOf keys v = some fields) ↔ IsSectionOf keys v := by
  cases v with
  | table entries => simp [fieldsOf, IsSectionOf, IsSection, OthersInRange]
  | _ => simp [fieldsOf, IsSectionOf, IsSection]

theorem get_of_fieldsOf {α : Type} {keys : List String} {fields : Fields}
    (h : fieldsOf keys v = some fields) (key : String) (position : Nat) (default : α)
    (read : Value → Option α) :
    fields.get key position default read = (fieldIn? key position v).elim (some default) read := by
  cases v with
  | table entries =>
    obtain ⟨-, h⟩ := Option.ite_none_right_eq_some.mp h
    cases h
    simp only [Fields.get, fieldIn?, namedIn?]
    cases find? entries key <;> rfl
  | list items =>
    cases h
    simp only [Fields.get, fieldIn?]
    cases items[position]? <;> rfl
  | datetime => cases h; rfl
  | _ => cases h

theorem bind_get_eq_some_iff {α : Type} {keys : List String} {key : String} {position : Nat}
    {default x : α} {read : Value → Option α} :
    ((fieldsOf keys v).bind fun fields => fields.get key position default read) = some x ↔
      IsSectionOf keys v ∧ (fieldIn? key position v).elim (some default) read = some x := by
  rw [← exists_fieldsOf_iff]
  constructor
  · intro heq
    obtain ⟨fields, hfields, heq⟩ := Option.bind_eq_some_iff.mp heq
    exact ⟨⟨fields, hfields⟩, get_of_fieldsOf hfields .. ▸ heq⟩
  · rintro ⟨⟨fields, hfields⟩, heq⟩
    exact Option.bind_eq_some_iff.mpr ⟨fields, hfields, get_of_fieldsOf hfields .. ▸ heq⟩

/-- What the reading functions do with the value found for a setting. -/
def Takes (c : Config) (s : Setting) (found : Option Value) : Prop :=
  let d : Config := {}
  match s with
  | .hubThreshold => found.elim (some d.graph.hubThreshold) readCount = some c.graph.hubThreshold
  | .extensions => found.elim (some d.graph.extensions) readTexts = some c.graph.extensions
  | .entryPoints => found.elim (some d.graph.entryPoints) readTexts = some c.graph.entryPoints
  | .includeDynamicImports =>
    found.elim (some d.graph.includeDynamicImports) readBool = some c.graph.includeDynamicImports
  | .ignoredDirectories =>
    found.elim (some d.ignoredDirectories) readTexts = some c.ignoredDirectories
  | .presets => found.elim (some d.presets) readPresets = some c.presets

/-- The settings of a section that is there, or is not. -/
def TakesGroup (c : Config) (group : String) (found : Option Value) : Prop :=
  (∀ v, found = some v → IsSectionOf (keysOf group) v) ∧
    ∀ s : Setting, s.group = group → c.Takes s (found.bind (fieldIn? s.key s.position))

theorem Setting.forall_iff {P : Setting → Prop} :
    (∀ s, P s) ↔ P .hubThreshold ∧ P .extensions ∧ P .entryPoints ∧ P .includeDynamicImports ∧
      P .ignoredDirectories ∧ P .presets := by
  constructor
  · intro h
    exact ⟨h _, h _, h _, h _, h _, h _⟩
  · rintro ⟨h1, h2, h3, h4, h5, h6⟩ s
    cases s <;> assumption

theorem readGraph_eq_some_iff {g : GraphOptions} :
    readGraph v = some g ↔ IsSectionOf (keysOf "graph") v ∧
      (fieldIn? "hub_threshold" 0 v).elim (some ({} : GraphOptions).hubThreshold) readCount =
        some g.hubThreshold ∧
      (fieldIn? "extensions" 1 v).elim (some ({} : GraphOptions).extensions) readTexts =
        some g.extensions ∧
      (fieldIn? "entry_points" 2 v).elim (some ({} : GraphOptions).entryPoints) readTexts =
        some g.entryPoints ∧
      (fieldIn? "include_dynamic_imports" 3 v).elim
        (some ({} : GraphOptions).includeDynamicImports) readBool =
        some g.includeDynamicImports := by
  have hkeys : keysOf "graph" =
      ["hub_threshold", "extensions", "entry_points", "include_dynamic_imports"] := by decide
  rw [hkeys, ← exists_fieldsOf_iff]
  constructor
  · intro heq
    obtain ⟨fields, hfields, heq⟩ := Option.bind_eq_some_iff.mp heq
    simp only [get_of_fieldsOf hfields] at heq
    obtain ⟨n, hn, heq⟩ := Option.bind_eq_some_iff.mp heq
    obtain ⟨es, hes, heq⟩ := Option.bind_eq_some_iff.mp heq
    obtain ⟨ps, hps, heq⟩ := Option.bind_eq_some_iff.mp heq
    obtain ⟨b, hb, heq⟩ := Option.bind_eq_some_iff.mp heq
    cases heq
    exact ⟨⟨fields, hfields⟩, hn, hes, hps, hb⟩
  · rintro ⟨⟨fields, hfields⟩, hn, hes, hps, hb⟩
    simp only [readGraph, hfields, get_of_fieldsOf hfields, hn, hes, hps, hb, Option.bind_eq_bind,
      Option.bind_some]
    rfl

theorem takesGroup_graph_iff {found : Option Value} :
    c.TakesGroup "graph" found ↔
      found.elim (some ({} : Config).graph) readGraph = some c.graph := by
  cases found with
  | none =>
    obtain ⟨⟨n, es, ps, b⟩, dirs, presets⟩ := c
    simp [TakesGroup, Setting.forall_iff, Setting.group, Takes]
  | some v =>
    simpa [TakesGroup, Setting.forall_iff, Setting.group, Setting.key, Setting.position, Takes]
      using (readGraph_eq_some_iff (g := c.graph)).symm

/-- A section with one setting. -/
theorem takesGroup_iff_of_single {α : Type} {default x : α} {read : Value → Option α}
    (hsingle : ∀ t : Setting, t.group = s.group → t = s)
    (htakes : ∀ found, c.Takes s found ↔ found.elim (some default) read = some x)
    (found : Option Value) :
    c.TakesGroup s.group found ↔
      found.elim (some default) (fun v => (fieldsOf (keysOf s.group) v).bind fun fields =>
        fields.get s.key s.position default read) = some x := by
  have hsetting : (∀ t : Setting, t.group = s.group →
      c.Takes t (found.bind (fieldIn? t.key t.position))) ↔
      (found.bind (fieldIn? s.key s.position)).elim (some default) read = some x := by
    rw [← htakes]
    constructor
    · intro h
      exact h s rfl
    · intro h t ht
      rwa [hsingle t ht]
  rw [TakesGroup, hsetting]
  cases found with
  | none => simp
  | some v => simp [bind_get_eq_some_iff]

theorem takesGroup_scan_iff {found : Option Value} :
    c.TakesGroup "scan" found ↔
      found.elim (some ({} : Config).ignoredDirectories)
        (readScan ({} : Config).ignoredDirectories) = some c.ignoredDirectories :=
  takesGroup_iff_of_single (s := .ignoredDirectories)
    (fun t ht => by cases t <;> first | rfl | exact absurd ht (by decide)) (fun _ => Iff.rfl) found

theorem takesGroup_keywords_iff {found : Option Value} :
    c.TakesGroup "keywords" found ↔
      found.elim (some ({} : Config).presets) readKeywords = some c.presets :=
  takesGroup_iff_of_single (s := .presets)
    (fun t ht => by cases t <;> first | rfl | exact absurd ht (by decide)) (fun _ => Iff.rfl) found

theorem ofEntries_eq_some_iff_takesGroup :
    ofEntries doc = some c ↔
      OthersInRange groups doc ∧ ∀ group ∈ groups, c.TakesGroup group (find? doc group) := by
  have hsections : (∀ group ∈ groups, c.TakesGroup group (find? doc group)) ↔
      c.TakesGroup "graph" (find? doc "graph") ∧ c.TakesGroup "scan" (find? doc "scan") ∧
        c.TakesGroup "keywords" (find? doc "keywords") := by
    simp [groups]
  have hdoc : (∃ fields, fieldsOf groups (.table doc) = some fields) ↔
      OthersInRange groups doc := by
    simp [exists_fieldsOf_iff, IsSectionOf, IsSection]
  rw [hsections, takesGroup_graph_iff, takesGroup_scan_iff, takesGroup_keywords_iff, ← hdoc]
  constructor
  · intro heq
    obtain ⟨fields, hfields, heq⟩ := Option.bind_eq_some_iff.mp heq
    simp only [get_of_fieldsOf hfields] at heq
    obtain ⟨g, hg, heq⟩ := Option.bind_eq_some_iff.mp heq
    obtain ⟨dirs, hdirs, heq⟩ := Option.bind_eq_some_iff.mp heq
    obtain ⟨ps, hps, heq⟩ := Option.bind_eq_some_iff.mp heq
    cases heq
    exact ⟨⟨fields, hfields⟩, hg, hdirs, hps⟩
  · rintro ⟨⟨fields, hfields⟩, hg, hdirs, hps⟩
    have hfields' : fieldsOf ["graph", "scan", "keywords"] (.table doc) = some fields := hfields
    simp only [ofEntries, hfields', get_of_fieldsOf hfields, fieldIn?, namedIn?, hg, hdirs, hps,
      Option.bind_eq_bind, Option.bind_some]
    rfl

theorem Setting.group_mem_groups (s : Setting) : s.group ∈ groups := by cases s <;> decide

/-- The sections of the document are written so that it can be read, whatever the settings are. -/
def IsShaped (doc : List (String × Value)) : Prop :=
  (∀ group ∈ groups, ∀ v, find? doc group = some v → IsSection v) ∧ UnknownInRange doc

/-- Reading a document is reading its settings. -/
theorem ofEntries_eq_some_iff :
    ofEntries doc = some c ↔ IsShaped doc ∧ ∀ s, c.Takes s (value? doc s) := by
  rw [ofEntries_eq_some_iff_takesGroup]
  constructor
  · rintro ⟨hothers, hgroups⟩
    refine ⟨⟨fun group hgroup v hv => ((hgroups group hgroup).1 v hv).1, hothers, ?_⟩, ?_⟩
    · exact fun group hgroup entries h => ((hgroups group hgroup).1 _ h).2 entries rfl
    · exact fun s => (hgroups s.group s.group_mem_groups).2 s rfl
  · rintro ⟨⟨hsections, hothers, hunknown⟩, htakes⟩
    refine ⟨hothers, fun group hgroup => ⟨fun v hv => ⟨hsections group hgroup v hv, ?_⟩, ?_⟩⟩
    · rintro entries rfl
      exact hunknown group hgroup entries hv
    · rintro s rfl
      exact htakes s

/-! ### What is read -/

/-- A value that is taken has the type and range of the setting. -/
theorem Takes.admits (h : c.Takes s (some v)) : s.Admits v := by
  cases s with
  | hubThreshold => exact ⟨_, readCount_eq_some_iff.mp h⟩
  | extensions => exact ⟨_, readTexts_eq_some_iff.mp h⟩
  | entryPoints => exact ⟨_, readTexts_eq_some_iff.mp h⟩
  | includeDynamicImports => exact ⟨_, readBool_eq_some_iff.mp h⟩
  | ignoredDirectories => exact ⟨_, readTexts_eq_some_iff.mp h⟩
  | presets =>
    obtain ⟨named, rfl, -⟩ := readPresets_eq_some_iff.mp h
    refine ⟨_, rfl, fun e he => ?_⟩
    obtain ⟨p, -, rfl⟩ := List.mem_map.mp he
    exact ⟨p.2, rfl⟩

/-- A value that is taken is the value of the setting. -/
theorem Takes.has (hv : v.IsProper) (h : c.Takes s (some v)) : c.Has s v := by
  cases s with
  | hubThreshold => exact (readCount_eq_some_iff.mp h).2
  | extensions => exact readTexts_eq_some_iff.mp h
  | entryPoints => exact readTexts_eq_some_iff.mp h
  | includeDynamicImports => exact readBool_eq_some_iff.mp h
  | ignoredDirectories => exact readTexts_eq_some_iff.mp h
  | presets =>
    obtain ⟨named, rfl, hps⟩ := readPresets_eq_some_iff.mp h
    refine ⟨_, rfl, fun name => ?_⟩
    cases hv with
    | table hkeys _ =>
      rw [List.map_map] at hkeys
      rw [find?_map fun _ => texts, preset?, hps, find?_foldr_insertPreset hkeys]

/-- Without a value a setting has its default. -/
theorem Takes.agree (h : c.Takes s none) : c.Agree {} s := by
  cases s <;> exact (Option.some.inj h).symm

theorem exists_eq_map_texts {entries : List (String × Value)}
    (h : ∀ e ∈ entries, ∃ ts, e.2 = texts ts) :
    ∃ named : List (String × List String), entries = named.map fun p => (p.1, texts p.2) := by
  induction entries with
  | nil => exact ⟨[], rfl⟩
  | cons e es ih =>
    obtain ⟨⟨ts, he⟩, hes⟩ := List.forall_mem_cons.mp h
    obtain ⟨named, rfl⟩ := ih hes
    exact ⟨(e.1, ts) :: named, by rw [List.map_cons, ← he]⟩

theorem exists_takes_setting (s : Setting) {found : Option Value}
    (h : ∀ v, found = some v → s.Admits v) : ∃ c : Config, c.Takes s found := by
  cases found with
  | none => exact ⟨{}, by cases s <;> rfl⟩
  | some v =>
    have hv := h v rfl
    cases s with
    | hubThreshold =>
      obtain ⟨n, hn⟩ := hv
      exact ⟨{ graph := { hubThreshold := n } }, readCount_eq_some_iff.mpr hn⟩
    | extensions =>
      obtain ⟨ts, hts⟩ := hv
      exact ⟨{ graph := { extensions := ts } }, readTexts_eq_some_iff.mpr hts⟩
    | entryPoints =>
      obtain ⟨ts, hts⟩ := hv
      exact ⟨{ graph := { entryPoints := ts } }, readTexts_eq_some_iff.mpr hts⟩
    | includeDynamicImports =>
      obtain ⟨b, hb⟩ := hv
      exact ⟨{ graph := { includeDynamicImports := b } }, readBool_eq_some_iff.mpr hb⟩
    | ignoredDirectories =>
      obtain ⟨ts, hts⟩ := hv
      exact ⟨{ ignoredDirectories := ts }, readTexts_eq_some_iff.mpr hts⟩
    | presets =>
      obtain ⟨entries, rfl, hentries⟩ := hv
      obtain ⟨named, rfl⟩ := exists_eq_map_texts hentries
      exact ⟨{ presets := named.foldr insertPreset [] },
        readPresets_eq_some_iff.mpr ⟨named, rfl, rfl⟩⟩

/-- Settings of the right type and range are taken, all of them. -/
theorem exists_takes {found : Setting → Option Value}
    (h : ∀ s v, found s = some v → s.Admits v) : ∃ c : Config, ∀ s, c.Takes s (found s) := by
  obtain ⟨c1, h1⟩ := exists_takes_setting .hubThreshold (h _)
  obtain ⟨c2, h2⟩ := exists_takes_setting .extensions (h _)
  obtain ⟨c3, h3⟩ := exists_takes_setting .entryPoints (h _)
  obtain ⟨c4, h4⟩ := exists_takes_setting .includeDynamicImports (h _)
  obtain ⟨c5, h5⟩ := exists_takes_setting .ignoredDirectories (h _)
  obtain ⟨c6, h6⟩ := exists_takes_setting .presets (h _)
  -- a setting is taken into its own field, so the fields of the six fit together
  exact ⟨⟨⟨c1.graph.hubThreshold, c2.graph.extensions, c3.graph.entryPoints,
    c4.graph.includeDynamicImports⟩, c5.ignoredDirectories, c6.presets⟩,
    Setting.forall_iff.mpr ⟨h1, h2, h3, h4, h5, h6⟩⟩

theorem isReadable_of_ofEntries (h : ofEntries doc = some c) : IsReadable doc := by
  obtain ⟨⟨hsections, hunknown⟩, htakes⟩ := ofEntries_eq_some_iff.mp h
  exact ⟨hsections, fun s v hv => (hv ▸ htakes s).admits, hunknown⟩

theorem IsReadable.exists_ofEntries (h : IsReadable doc) : ∃ c, ofEntries doc = some c := by
  obtain ⟨c, hc⟩ := exists_takes h.settings
  exact ⟨c, ofEntries_eq_some_iff.mpr ⟨⟨h.sections, h.unknown⟩, hc⟩⟩

theorem isProper_of_value? (hdoc : (Value.table doc).IsProper) (h : value? doc s = some v) :
    v.IsProper := by
  obtain ⟨w, hw, hv⟩ := Option.bind_eq_some_iff.mp h
  cases hdoc with
  | table _ hdoc =>
    have hproper : w.IsProper := hdoc _ (mem_of_find?_eq_some hw)
    cases hproper with
    | table _ hentries => exact hentries _ (mem_of_find?_eq_some hv)
    | list hitems => exact hitems v (List.mem_of_getElem? hv)
    | _ => cases hv

theorem follows_of_ofEntries (hdoc : (Value.table doc).IsProper) (h : ofEntries doc = some c) :
    c.Follows (value? doc) := by
  intro s
  have htakes := (ofEntries_eq_some_iff.mp h).2 s
  cases hvalue : value? doc s with
  | none => exact (hvalue ▸ htakes).agree
  | some v => exact (hvalue ▸ htakes).has (isProper_of_value? hdoc hvalue)

/-! ### Unknown keys -/

/-- A section without the entries that are not under one of the keys. -/
def knownIn (keys : List String) : Value → Value
  | .table entries => .table (entries.filter (·.1 ∈ keys))
  | v => v

/-- A document without the keys that no setting has. -/
def known (doc : List (String × Value)) : List (String × Value) :=
  (doc.filter (·.1 ∈ groups)).map fun e => (e.1, knownIn (keysOf e.1) e.2)

theorem find?_filter {α : Type} {keys : List String} {key : String} (hkey : key ∈ keys)
    (entries : List (String × α)) :
    find? (entries.filter (·.1 ∈ keys)) key = find? entries key := by
  induction entries with
  | nil => rfl
  | cons e es ih =>
    rw [find?_cons]
    by_cases he : e.1 ∈ keys
    · rw [List.filter_cons_of_pos (by simpa using he), find?_cons, ih]
    · rw [List.filter_cons_of_neg (by simpa using he), ih, if_neg]
      rintro rfl
      exact he hkey

theorem find?_known (hgroup : group ∈ groups) :
    find? (known doc) group = (find? doc group).map (knownIn (keysOf group)) := by
  rw [known, find?_map fun group => knownIn (keysOf group), find?_filter hgroup]

theorem fieldIn?_knownIn {keys : List String} {key : String} (hkey : key ∈ keys) (position : Nat) :
    fieldIn? key position (knownIn keys v) = fieldIn? key position v := by
  cases v with
  | table entries => exact find?_filter hkey entries
  | _ => rfl

theorem Setting.key_mem_keysOf (s : Setting) : s.key ∈ keysOf s.group := by cases s <;> decide

theorem value?_known (s : Setting) : value? (known doc) s = value? doc s := by
  rw [value?, value?, find?_known s.group_mem_groups]
  cases find? doc s.group with
  | none => rfl
  | some v => exact fieldIn?_knownIn s.key_mem_keysOf s.position

theorem isSection_knownIn {keys : List String} : IsSection (knownIn keys v) ↔ IsSection v := by
  cases v <;> rfl

theorem unknownInRange_known (doc : List (String × Value)) : UnknownInRange (known doc) := by
  constructor
  · intro e he
    obtain ⟨e', he', rfl⟩ := List.mem_map.mp he
    exact .inl (by simpa using (List.mem_filter.mp he').2)
  · intro group hgroup entries h e he
    rw [find?_known hgroup] at h
    obtain ⟨v, -, hv⟩ := Option.map_eq_some_iff.mp h
    cases v with
    | table inner =>
      cases hv
      exact .inl (by simpa using (List.mem_filter.mp he).2)
    | _ => cases hv

/-- Leaving out the unknown keys changes nothing. -/
theorem ofEntries_known (h : UnknownInRange doc) : ofEntries (known doc) = ofEntries doc := by
  have hsections : (∀ group ∈ groups, ∀ v, find? (known doc) group = some v → IsSection v) ↔
      ∀ group ∈ groups, ∀ v, find? doc group = some v → IsSection v := by
    refine forall_congr' fun group => forall_congr' fun hgroup => ?_
    rw [find?_known hgroup]
    cases find? doc group <;> simp [isSection_knownIn]
  refine Option.ext fun c => ?_
  rw [ofEntries_eq_some_iff, ofEntries_eq_some_iff, IsShaped, IsShaped, hsections]
  simp only [value?_known, unknownInRange_known, h]

/-! ### Files -/

theorem load_of_readText {tree : FileTree} {path text : String}
    (h : tree.readText path = .ok text) : load tree path = ofText text := by
  rw [load, h]

theorem ofText_of_parse {text : String} (h : parse text = some doc) :
    ofText text = (ofEntries doc).getD {} := by
  rw [ofText, h, Option.bind_some]

/-- A configuration file is read as a whole: every setting follows the document, or every one has
its default. The latter is the case if there is no text, or no document in it, or any section or
setting of the document is not as it should be. Unknown keys change nothing. -/
theorem load_follows_document_or_default (tree : FileTree) (path : String) :
    (∀ e, tree.readText path = .error e → load tree path = {}) ∧
    ∀ text, tree.readText path = .ok text →
      (parse text = none → load tree path = {}) ∧
      ∀ doc, parse text = some doc →
        (¬IsReadable doc → load tree path = {}) ∧
        (IsReadable doc → (load tree path).Follows (value? doc)) ∧
        ∀ text' doc', parse text' = some doc' → UnknownInRange doc → UnknownInRange doc' →
          known doc' = known doc → ofText text' = load tree path := by
  refine ⟨fun e he => by rw [load, he], fun text htext => ?_⟩
  rw [load_of_readText htext]
  refine ⟨fun h => by rw [ofText, h]; rfl, fun doc hdoc => ?_⟩
  rw [ofText_of_parse hdoc]
  refine ⟨fun h => ?_, fun h => ?_, fun text' doc' hdoc' hrange hrange' hknown => ?_⟩
  · cases hentries : ofEntries doc with
    | none => rfl
    | some c => exact absurd (isReadable_of_ofEntries hentries) h
  · obtain ⟨c, hc⟩ := h.exists_ofEntries
    rw [hc]
    exact follows_of_ofEntries (isProper_of_parse hdoc) hc
  · rw [ofText_of_parse hdoc', ← ofEntries_known hrange', hknown, ofEntries_known hrange]

/-- A file with a section of which one key is unknown, and with presets in no order. -/
theorem load_follows_document_presets :
    let text := "[graph]\nhub_threshold = 2\ncolour = 'red'\n[keywords.presets]\nb = ['x']\na = []"
    let tree : FileTree := ⟨[.file "config.toml" text.toUTF8], []⟩
    load tree "config.toml" =
        { graph := { hubThreshold := 2 }, presets := [("a", []), ("b", ["x"])] } ∧
      ∃ doc, tree.readText "config.toml" = .ok text ∧ parse text = some doc ∧ IsReadable doc ∧
        (load tree "config.toml").Follows (value? doc) := by
  intro text tree
  have htext : tree.readText "config.toml" = .ok text := FileTree.decode_eq_ok_iff.mpr rfl
  have hsome : ((parse text).bind ofEntries).isSome = true := by decide +kernel
  obtain ⟨c, hc⟩ := Option.isSome_iff_exists.mp hsome
  obtain ⟨doc, hdoc, hentries⟩ := Option.bind_eq_some_iff.mp hc
  have hreadable := isReadable_of_ofEntries hentries
  have hfollows := ((load_follows_document_or_default tree "config.toml").2 text htext).2 doc hdoc
  exact ⟨by decide +kernel, doc, htext, hdoc, hreadable, hfollows.2.1 hreadable⟩

/-- By their keys alone the settings do not tell the configuration: a section may be a list. -/
theorem not_forall_follows_namedValue :
    ¬∀ (tree : FileTree) (path : String), load tree path = {} ∨
      ∃ text doc, tree.readText path = .ok text ∧ parse text = some doc ∧
        (load tree path).Follows (namedValue? doc) := by
  intro h
  let text := "graph = [3]"
  let tree : FileTree := ⟨[.file "config.toml" text.toUTF8], []⟩
  have hhub : (load tree "config.toml").graph.hubThreshold = 3 := by decide +kernel
  have htext : tree.readText "config.toml" = .ok text := FileTree.decode_eq_ok_iff.mpr rfl
  have hunnamed : ((parse text).bind (namedValue? · .hubThreshold)).isNone = true := by
    decide +kernel
  rcases h tree "config.toml" with hdefault | ⟨text', doc, htext', hdoc, hfollows⟩
  · rw [hdefault] at hhub
    exact absurd hhub (by decide)
  · rw [htext] at htext'
    cases htext'
    rw [hdoc, Option.bind_some, Option.isNone_iff_eq_none] at hunnamed
    have hthreshold := hfollows .hubThreshold
    rw [hunnamed] at hthreshold
    exact absurd (hhub.symm.trans hthreshold) (by decide)

end ScriptAtlas.Config
