import ScriptAtlas.CommandLine.Run
import ScriptAtlas.Proofs.GivenWords

/-! # Paths and a manifest exclude each other

`lineOf?` takes a command line apart without any checks: what stands before and behind its
subcommand, with the paths and the manifest among that. On the lines that are accepted this is what
was read (`exists_line_of_parse_eq_ok`), and a line that gives both paths and a manifest is not
accepted, wherever they stand. So a command that loads a manifest leaves no path aside. -/

namespace ScriptAtlas.CommandLine

open Syntax (bind_eq_ok)

/-! ### What a whole command line gives -/

/-- The values of all options of a name. -/
def optionValues (name : String) : List Given → List String
  | [] => []
  | .option n values :: gs => (if n = name then values else []) ++ optionValues name gs
  | .positional _ :: gs => optionValues name gs

/-- The words that stand for themselves. -/
def positionalWords : List Given → List String
  | [] => []
  | .option _ _ :: gs => positionalWords gs
  | .positional w :: gs => w :: positionalWords gs

/-- A command line, taken apart. -/
structure Line where
  subcommand : String
  /-- What is given before and behind the subcommand. -/
  given : List Given
deriving DecidableEq, Repr

/-- The parts of a command line that has a subcommand. -/
def lineOf? (args : List String) : Option Line :=
  match leading topLayout args with
  | (before, subcommand :: rest) =>
    (layoutOf? subcommand).map fun layout => ⟨subcommand, before ++ given layout rest⟩
  | (_, []) => none

namespace Line

/-- The paths that are given. The first word of some subcommands is the name of a function. -/
def paths (l : Line) : List String :=
  match l.subcommand with
  | "deps" | "callers" => (positionalWords l.given).drop 1
  | "graph" | "hotspots" => positionalWords l.given
  | "keywords" => optionValues "in" l.given
  | _ => []

def manifest? (l : Line) : Option String := (optionValues "manifest" l.given).head?

end Line

/-! ### What a command was read as -/

namespace Command

def subcommand : Command → String
  | .deps .. => "deps"
  | .callers .. => "callers"
  | .keywords .. => "keywords"
  | .graph .. => "graph"
  | .complexity _ => "complexity"
  | .hotspots .. => "hotspots"

/-- The paths of a command, as they were read. -/
def paths : Command → List String
  | .deps _ s | .callers _ s | .graph s _ _ _ | .hotspots s _ => s.paths
  | .keywords _ _ inputs _ => inputs
  | .complexity _ => []

/-- The paths of a command if none are given. -/
def defaultPaths : Command → List String
  | .deps .. | .callers .. | .graph .. | .hotspots .. => ["."]
  | .keywords .. | .complexity _ => []

def manifest? : Command → Option String
  | .deps _ s | .callers _ s | .graph s _ _ _ | .hotspots s _ => s.manifest
  | .keywords _ _ _ manifest => manifest
  | .complexity _ => none

/-- Where the command loads its source files from, if it needs any. -/
def sources? : Command → Option Sources
  | .deps _ s | .callers _ s | .graph s _ _ _ | .hotspots s _ => some s
  | .keywords _ _ inputs manifest =>
    some ⟨if inputs.isEmpty then ["."] else inputs, manifest⟩
  | .complexity _ => none

end Command

/-! ### Values by name -/

/-- The values that go under a name. -/
def valuesNamed (name : String) (vs : List (String × String)) : List String :=
  (vs.filter (·.1 = name)).map (·.2)

section Values

variable {layout : Layout} {name : String} {k : Nat} {gs : List Given} {o : Parameter}

theorem valuesNamed_append (vs us : List (String × String)) :
    valuesNamed name (vs ++ us) = valuesNamed name vs ++ valuesNamed name us := by
  simp [valuesNamed]

theorem valuesNamed_map (n : String) (vs : List String) :
    valuesNamed name (vs.map (n, ·)) = if n = name then vs else [] := by
  by_cases h : n = name <;> simp [valuesNamed, List.filter_map, Function.comp_def, h]

theorem valuesNamed_cons (n v : String) (vs : List (String × String)) :
    valuesNamed name ((n, v) :: vs) = (if n = name then [v] else []) ++ valuesNamed name vs := by
  by_cases h : n = name <;> simp [valuesNamed, h]

theorem values_eq_valuesNamed {p : Progress} (h : p.pending = none) :
    p.values name = valuesNamed name p.assigned := by
  simp only [Progress.values, Progress.assigned, h, Option.toList_none, List.append_nil]
  induction p.done with
  | nil => rfl
  | cons o done ih =>
    rw [List.flatMap_cons, valuesNamed_append, valuesNamed_map, ← ih]
    by_cases hname : o.parameter.name = name <;> simp [hname]

/-- Under a name that no position has, the options bring values. -/
theorem valuesNamed_of_option (h : ∀ o ∈ layout.positions, o.name ≠ name) :
    valuesNamed name (assignments layout k gs) = optionValues name gs := by
  induction gs generalizing k with
  | nil => rfl
  | cons g gs ih =>
    cases g with
    | option n values => rw [assignments, valuesNamed_append, valuesNamed_map, ih, optionValues]
    | positional w =>
      rw [assignments, optionValues]
      split
      · next o ho =>
        rw [valuesNamed_cons, ih, if_neg (h o (List.mem_of_getElem? ho)), List.nil_append]
      · exact ih

section Positions

variable (hoptions : ∀ o ∈ layout.options, o.name ≠ name) (hknown : Progress.Known layout gs)
include hoptions hknown

theorem optionValues_eq_nil : optionValues name gs = [] := by
  induction gs with
  | nil => rfl
  | cons g gs ih =>
    have hrest := ih hknown.tail
    cases g with
    | option n values =>
      obtain ⟨o, ho, rfl⟩ := hknown n values List.mem_cons_self
      rw [optionValues, if_neg (hoptions o ho), hrest, List.nil_append]
    | positional w => exact hrest

/-- Under the name of a position for many values, the words bring values from there on. -/
theorem valuesNamed_of_position (hposition : layout.positions[k]? = some o)
    (hname : o.name = name) (harity : o.arity = .many) :
    valuesNamed name (assignments layout k gs) = positionalWords gs := by
  induction gs with
  | nil => rfl
  | cons g gs ih =>
    have hrest := ih hknown.tail
    cases g with
    | option n values =>
      obtain ⟨o', ho', rfl⟩ := hknown n values List.mem_cons_self
      rw [assignments, valuesNamed_append, valuesNamed_map, if_neg (hoptions o' ho'), hrest,
        List.nil_append, positionalWords]
    | positional w =>
      rw [assignments, hposition]
      simp only [harity, if_true]
      rw [valuesNamed_cons, if_pos hname, hrest, positionalWords, List.singleton_append]

/-- A position for one value takes the first word. -/
theorem valuesNamed_of_next_position {first : Parameter}
    (hfirst : layout.positions[k]? = some first) (hother : first.name ≠ name)
    (hone : first.arity ≠ .many) (hposition : layout.positions[k + 1]? = some o)
    (hname : o.name = name) (harity : o.arity = .many) :
    valuesNamed name (assignments layout k gs) = (positionalWords gs).drop 1 := by
  induction gs with
  | nil => rfl
  | cons g gs ih =>
    cases g with
    | option n values =>
      obtain ⟨o', ho', rfl⟩ := hknown n values List.mem_cons_self
      rw [assignments, valuesNamed_append, valuesNamed_map, if_neg (hoptions o' ho'),
        ih hknown.tail, List.nil_append, positionalWords]
    | positional w =>
      rw [assignments, hfirst]
      simp only [hone, if_false]
      rw [valuesNamed_cons, if_neg hother, valuesNamed_of_position hoptions hknown.tail hposition
        hname harity, positionalWords, List.nil_append, List.drop_one, List.tail_cons]

end Positions

theorem optionValues_append (gs hs : List Given) :
    optionValues name (gs ++ hs) = optionValues name gs ++ optionValues name hs := by
  induction gs with
  | nil => rfl
  | cons g gs ih => cases g <;> simp [optionValues, ih]

theorem positionalWords_append (gs hs : List Given) :
    positionalWords (gs ++ hs) = positionalWords gs ++ positionalWords hs := by
  induction gs with
  | nil => rfl
  | cons g gs ih => cases g <;> simp [positionalWords, ih]

theorem positionalWords_eq_nil (h : ∀ w, Given.positional w ∉ gs) : positionalWords gs = [] := by
  induction gs with
  | nil => rfl
  | cons g gs ih =>
    cases g with
    | option n values => exact ih fun w hmem => h w (List.mem_cons_of_mem _ hmem)
    | positional w => exact absurd List.mem_cons_self (h w)

end Values

/-! ### Accepted lines -/

theorem parse_eq_ok {args : List String} {i : Invocation} (h : parse args = .ok i) :
    ∃ top sub rest layout inner p,
      Progress.words {} topLayout args = .ok (top, some (sub, rest)) ∧
      layoutOf? sub = some layout ∧ Progress.words {} layout rest = .ok inner ∧
      inner.1.settle = .ok p ∧ commandOf sub p = .ok i.command := by
  obtain ⟨⟨top, s⟩, htop, h⟩ := bind_eq_ok h
  match s with
  | none =>
    obtain ⟨top', -, h⟩ := bind_eq_ok h
    cases h
  | some (sub, rest) =>
    dsimp only at h
    split at h
    · cases h
    · next layout hlayout =>
      obtain ⟨inner, hinner, h⟩ := bind_eq_ok h
      obtain ⟨p, hp, h⟩ := bind_eq_ok h
      obtain ⟨c, hc, h⟩ := bind_eq_ok h
      obtain ⟨top', -, h⟩ := bind_eq_ok h
      cases h
      exact ⟨top, sub, rest, layout, inner, p, htop, hlayout, hinner, hp, hc⟩

/-- The name of the parameter that takes the paths. -/
def pathsName (subcommand : String) : String := if subcommand = "keywords" then "in" else "paths"

theorem not_has_of_conflict {p : Progress} {a b : String} {u : Unit} (h : conflict p a b = .ok u) :
    p.has a = true → p.has b = false := by
  unfold conflict at h
  split at h
  · cases h
  · next hboth => simpa using hboth

theorem values_of_not_has {p : Progress} {name : String} (h : p.has name = false) :
    p.values name = [] := by
  simp only [Progress.has, List.any_eq_false, decide_eq_true_eq] at h
  rw [Progress.values, List.filter_eq_nil_iff.mpr (by simpa using h), List.flatMap_nil]

theorem has_of_values_ne_nil {p : Progress} {name : String} (h : p.values name ≠ []) :
    p.has name = true := by
  cases hhas : p.has name with
  | true => rfl
  | false => exact absurd (values_of_not_has hhas) h

theorem commandOf_eq_ok {sub : String} {layout : Layout} {p : Progress} {c : Command}
    (hlayout : layoutOf? sub = some layout) (h : commandOf sub p = .ok c) :
    c.subcommand = sub ∧ (p.has (pathsName sub) = true → p.has "manifest" = false) ∧
      (sub = "complexity" ∧ c.paths = [] ∧ c.defaultPaths = [] ∧ c.manifest? = none ∨
        c.manifest? = p.value? "manifest" ∧
          c.paths =
            if p.has (pathsName sub) then p.values (pathsName sub) else c.defaultPaths) := by
  obtain ⟨_, hpaths, h⟩ := bind_eq_ok h
  obtain ⟨_, hin, h⟩ := bind_eq_ok h
  have hpaths := not_has_of_conflict hpaths
  have hin := not_has_of_conflict hin
  unfold layoutOf? at hlayout
  split at hlayout
  · obtain ⟨t, -, h⟩ := bind_eq_ok h
    cases h
    exact ⟨rfl, hpaths, .inr ⟨rfl, rfl⟩⟩
  · obtain ⟨t, -, h⟩ := bind_eq_ok h
    cases h
    exact ⟨rfl, hpaths, .inr ⟨rfl, rfl⟩⟩
  · have hkeywords : .keywords (p.values "keywords") (p.value? "preset") (p.values "in")
        (p.value? "manifest") = c := by
      cases hpreset : p.has "preset" with
      | true =>
        simp only [hpreset, if_true] at h
        exact Except.ok.inj h
      | false =>
        simp only [hpreset, Bool.false_eq_true, if_false] at h
        obtain ⟨_, -, h⟩ := bind_eq_ok h
        exact Except.ok.inj h
    subst hkeywords
    refine ⟨rfl, hin, .inr ⟨rfl, ?_⟩⟩
    show p.values "in" = if p.has "in" = true then p.values "in" else []
    split
    · rfl
    · next hnot => exact values_of_not_has (by simpa using hnot)
  · cases h
    exact ⟨rfl, hpaths, .inr ⟨rfl, rfl⟩⟩
  · obtain ⟨t, -, h⟩ := bind_eq_ok h
    cases h
    exact ⟨rfl, hpaths, .inl ⟨rfl, rfl, rfl, rfl⟩⟩
  · cases h
    exact ⟨rfl, hpaths, .inr ⟨rfl, rfl⟩⟩
  · cases hlayout

theorem valuesNamed_pathsName {sub : String} {layout : Layout} {before gs : List Given}
    (hlayout : layoutOf? sub = some layout) (hbefore : Progress.Known topLayout before)
    (hwords : positionalWords before = []) (hknown : Progress.Known layout gs) :
    valuesNamed (pathsName sub) (assignments layout 0 gs) = Line.paths ⟨sub, before ++ gs⟩ := by
  have hgiven : positionalWords (before ++ gs) = positionalWords gs := by
    rw [positionalWords_append, hwords, List.nil_append]
  unfold Line.paths
  rw [hgiven]
  unfold layoutOf? at hlayout
  split at hlayout <;> cases hlayout
  · exact valuesNamed_of_next_position (by decide) hknown rfl (by decide) (by decide) rfl rfl rfl
  · exact valuesNamed_of_next_position (by decide) hknown rfl (by decide) (by decide) rfl rfl rfl
  · refine (valuesNamed_of_option (by decide)).trans ?_
    rw [optionValues_append, optionValues_eq_nil (by decide) hbefore, List.nil_append]
    rfl
  · exact valuesNamed_of_position (by decide) hknown rfl rfl rfl
  · exact (valuesNamed_of_option (by decide)).trans (optionValues_eq_nil (by decide) hknown)
  · exact valuesNamed_of_position (by decide) hknown rfl rfl rfl

/-- What an accepted line gives for the manifest and for the paths is what was read for them. -/
theorem exists_line_of_parse_eq_ok {args : List String} {i : Invocation}
    (h : parse args = .ok i) :
    ∃ line layout p, lineOf? args = some line ∧ layoutOf? line.subcommand = some layout ∧
      commandOf line.subcommand p = .ok i.command ∧
      p.values "manifest" = optionValues "manifest" line.given ∧
      p.values (pathsName line.subcommand) = line.paths ∧
      ∀ name, (∀ o ∈ layout.positions ++ layout.options, o.name ≠ name) → p.values name = [] := by
  obtain ⟨top, sub, rest, layout, inner, p, htop, hlayout, hinner, hsettle, hcommand⟩ :=
    parse_eq_ok h
  obtain ⟨before, hleading, hbefore, hpositional⟩ :=
    Progress.leading_words (p := {}) rfl (by decide) rfl (by simp [Progress.Ready]) htop
  have hline : lineOf? args = some ⟨sub, before ++ given layout rest⟩ := by
    simp [lineOf?, hleading, hlayout]
  have hwords : positionalWords before = [] := positionalWords_eq_nil hpositional
  have hsub : layout.subcommands = [] := by
    unfold layoutOf? at hlayout
    split at hlayout <;> cases hlayout <;> rfl
  obtain ⟨-, hknown, hassigned⟩ :=
    Progress.assigned_words (p := {}) hsub rfl (by simp [Progress.Ready]) hinner
  have hvalues : ∀ name,
      p.values name = valuesNamed name (assignments layout 0 (given layout rest)) := by
    intro name
    have hpending : p.pending = none := by rw [Progress.settle_eq_ok hsettle]
    rw [values_eq_valuesNamed hpending, Progress.assigned_settle hsettle, hassigned]
    rfl
  refine ⟨_, layout, p, hline, hlayout, hcommand, ?_, ?_, fun name hother => ?_⟩
  · have hpositions : ∀ o ∈ layout.positions, o.name ≠ "manifest" := by
      unfold layoutOf? at hlayout
      split at hlayout <;> cases hlayout <;> decide
    rw [hvalues, valuesNamed_of_option hpositions, optionValues_append,
      optionValues_eq_nil (by decide) hbefore, List.nil_append]
  · rw [hvalues]
    exact valuesNamed_pathsName hlayout hbefore hwords hknown
  · rw [List.forall_mem_append] at hother
    rw [hvalues, valuesNamed_of_option hother.1, optionValues_eq_nil hother.2 hknown]

theorem Command.manifest_of_sources? {c : Command} {s : Sources} (h : c.sources? = some s) :
    s.manifest = c.manifest? ∧ (c.paths ≠ [] → s.paths = c.paths) := by
  cases c <;> cases h
  case keywords => exact ⟨rfl, fun hpaths => by simp_all [Command.paths]⟩
  all_goals exact ⟨rfl, fun _ => rfl⟩

theorem Sources.load_of_manifest_eq_none {s : Sources} (h : s.manifest = none) (tree : FileTree)
    (config : Config) :
    s.load tree config =
      ((collect tree (s.paths.map .ofString) config.walkOptions).mapError .collecting).map
        fun files => ⟨files, .filesystem⟩ := by
  unfold Sources.load
  rw [h]
  cases collect tree (s.paths.map .ofString) config.walkOptions <;> rfl

/-- **No path is given in vain.** On every command line that is accepted, a manifest is read exactly
if one is given; then no path is given, before or behind it, and the paths are the default. If a
path is given, the paths of the command are those given, and the files are collected from them. -/
theorem manifest_excludes_paths {args : List String} {i : Invocation} (h : parse args = .ok i) :
    ∃ line, lineOf? args = some line ∧ line.subcommand = i.command.subcommand ∧
      i.command.manifest? = line.manifest? ∧
      (∀ m, i.command.manifest? = some m →
        line.paths = [] ∧ i.command.paths = i.command.defaultPaths) ∧
      (line.paths ≠ [] → i.command.paths = line.paths ∧
        ∀ s ∈ i.command.sources?, ∀ tree config, s.load tree config =
          ((collect tree (line.paths.map .ofString) config.walkOptions).mapError .collecting).map
            fun files => ⟨files, .filesystem⟩) := by
  obtain ⟨line, layout, p, hline, hlayout, hcommand, hmanifest, hpaths, hother⟩ :=
    exists_line_of_parse_eq_ok h
  obtain ⟨hsub, hconflict, hcase⟩ := commandOf_eq_ok hlayout hcommand
  have hvalue : line.manifest? = p.value? "manifest" := by
    rw [Line.manifest?, Progress.value?, hmanifest]
  refine ⟨line, hline, hsub.symm, ?_⟩
  rcases hcase with ⟨hcomplexity, hnoPaths, hnoDefault, hnone⟩ | ⟨hread, hchosen⟩
  · -- a command without sources
    rw [hcomplexity] at hlayout hpaths
    cases hlayout
    have hgiven : line.paths = [] := hpaths.symm.trans (hother _ (by decide))
    have hmanifest' : line.manifest? = none := by
      rw [hvalue, Progress.value?, hother "manifest" (by decide)]
      rfl
    exact ⟨hnone.trans hmanifest'.symm, fun m _ => ⟨hgiven, hnoPaths.trans hnoDefault.symm⟩,
      fun hne => absurd hgiven hne⟩
  · rw [hread]
    refine ⟨hvalue.symm, fun m hm => ?_, fun hgiven => ?_⟩
    · have hhas : p.has "manifest" = true := by
        apply has_of_values_ne_nil
        intro hnil
        rw [Progress.value?, hnil] at hm
        cases hm
      have hnot : p.has (pathsName line.subcommand) = false := by
        cases hpath : p.has (pathsName line.subcommand) with
        | false => rfl
        | true => rw [hconflict hpath] at hhas; cases hhas
      exact ⟨hpaths.symm.trans (values_of_not_has hnot), by rw [hchosen, hnot]; rfl⟩
    · have hpath := has_of_values_ne_nil (hpaths ▸ hgiven)
      have hnone : p.value? "manifest" = none := by
        rw [Progress.value?, values_of_not_has (hconflict hpath)]
        rfl
      have hsame : i.command.paths = line.paths := by rw [hchosen, if_pos hpath, hpaths]
      refine ⟨hsame, fun s hs tree config => ?_⟩
      obtain ⟨hm, hs⟩ := Command.manifest_of_sources? hs
      rw [Sources.load_of_manifest_eq_none (hm.trans (hread.trans hnone)), hs (hsame ▸ hgiven),
        hsame]

/-- A manifest, and a keyword behind two dashes that looks like an option. -/
theorem manifest_excludes_paths_keywords :
    let args := ["--json", "keywords", "eval", "--manifest=m.json", "--", "--in"]
    let i : Invocation := ⟨true, "warn", none, .keywords ["eval", "--in"] none [] (some "m.json")⟩
    parse args = .ok i ∧ ∃ line, lineOf? args = some line ∧ line.paths = [] ∧
      i.command.paths = i.command.defaultPaths := by
  intro args i
  have hparse : parse args = .ok i := by rfl
  obtain ⟨line, hline, -, -, hmanifest, -⟩ := manifest_excludes_paths hparse
  exact ⟨hparse, line, hline, hmanifest "m.json" rfl⟩

end ScriptAtlas.CommandLine
