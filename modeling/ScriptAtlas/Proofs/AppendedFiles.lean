import ScriptAtlas.Proofs.CallDirections

/-! # Answers about more files

Files put behind others add to an answer and change nothing of what was there. Named functions and
findings of the two parts stand one behind the other (`namedInAll_append`, `findingsIn_append`). Of
callers and dependencies each name is kept once, so the files behind give only names that are new
(`callersOf_append`, `dependenciesIn_append`); the target, once found, stays the same. -/

namespace ScriptAtlas.Function

variable {files A B : List SourceFile} {name t : String} {ws : List String}

/-! ### Named functions and findings -/

theorem namedInAll_append (A B : List SourceFile) :
    namedInAll (A ++ B) = namedInAll A ++ namedInAll B :=
  List.flatMap_append

/-- The findings of keywords in files. -/
def findingsIn (ks : List String) (files : List SourceFile) : List Finding :=
  (namedInAll files).filterMap (finding? ks true)

theorem findingsIn_append (ks : List String) (A B : List SourceFile) :
    findingsIn ks (A ++ B) = findingsIn ks A ++ findingsIn ks B := by
  unfold findingsIn
  rw [namedInAll_append, List.filterMap_append]

/-- Some keyword that is not blank is enough. -/
theorem keywords_eq_ok (hws : ∃ w ∈ ws, Text.trim w ≠ "") :
    keywords ws = .ok ((ws.map Text.trim).filter (· ≠ "")) := by
  obtain ⟨w, hw, hne⟩ := hws
  have hmem : Text.trim w ∈ (ws.map Text.trim).filter (· ≠ "") :=
    List.mem_filter.mpr ⟨List.mem_map_of_mem hw, by simpa using hne⟩
  unfold keywords
  split
  · next hnil => rw [hnil] at hmem; cases hmem
  · rfl

theorem keywordFindings_eq (hfiles : files ≠ []) (hws : ∃ w ∈ ws, Text.trim w ≠ "") :
    keywordFindings files ws = .ok (findingsIn ((ws.map Text.trim).filter (· ≠ "")) files) := by
  unfold keywordFindings
  rw [requireFiles_eq_ok hfiles, keywords_eq_ok hws]
  rfl

/-! ### Callers -/

/-- The callers of `t` in files, one for each name. -/
def callersOf (t : String) (files : List SourceFile) : List Caller :=
  (firstOfEach Named.name (files.flatMap (callersIn t))).map Named.caller

theorem mem_map_name_callersOf {c : String} :
    c ∈ (callersOf t files).map (·.name) ↔ c ∈ (files.flatMap (callersIn t)).map (·.name) := by
  have hname : (callersOf t files).map (·.name) =
      (firstOfEach Named.name (files.flatMap (callersIn t))).map (·.name) := by
    unfold callersOf
    rw [List.map_map]
    rfl
  rw [hname, mem_map_firstOfEach]

theorem callersOf_append (t : String) (A B : List SourceFile) :
    callersOf t (A ++ B) = callersOf t A ++
      (callersOf t B).filter (·.name ∉ (callersOf t A).map (·.name)) := by
  have hfirst := firstOfEach_append Named.name (A.flatMap (callersIn t))
    (B.flatMap (callersIn t))
  have hfilter : (firstOfEach Named.name (B.flatMap (callersIn t))).filter
      (·.name ∉ (A.flatMap (callersIn t)).map (·.name)) =
      (firstOfEach Named.name (B.flatMap (callersIn t))).filter
        (·.caller.name ∉ (callersOf t A).map (·.name)) := by
    refine List.filter_congr fun f _ => ?_
    rw [decide_eq_decide, not_iff_not, mem_map_name_callersOf]
    rfl
  calc callersOf t (A ++ B)
      = ((firstOfEach Named.name (A.flatMap (callersIn t))) ++
          (firstOfEach Named.name (B.flatMap (callersIn t))).filter
            (·.name ∉ (A.flatMap (callersIn t)).map (·.name))).map Named.caller := by
        unfold callersOf
        rw [List.flatMap_append]
        exact congrArg (List.map Named.caller) hfirst
    _ = _ := by
        rw [hfilter, List.map_append]
        unfold callersOf
        rw [List.filter_map]
        rfl

/-! ### Dependencies -/

/-- A target that is found in front stays, and so do its dependencies there. -/
theorem dependenciesIn_append {fs gs : List Named} {g : Named}
    (h : fs.find? (·.name = t) = some g) :
    dependenciesIn (fs ++ gs) t = ⟨some g.content, some g.file,
      (dependenciesIn fs t).dependencies ++ ((firstOfEach Named.name gs).filter fun f =>
        f.name ∉ fs.map (·.name) ∧ f.name ≠ t ∧ f.name ∈ g.calls).map Named.dependency⟩ := by
  have hfind : (fs ++ gs).find? (·.name = t) = some g := by
    rw [List.find?_append, h]
    rfl
  have hfirst : firstOfEach Named.name (fs ++ gs) = firstOfEach Named.name fs ++
      (firstOfEach Named.name gs).filter (·.name ∉ fs.map (·.name)) :=
    firstOfEach_append Named.name fs gs
  rw [dependenciesIn_of_find? hfind, dependenciesIn_of_find? h, hfirst, List.filter_append,
    List.map_append, List.filter_filter]
  simp [Bool.and_comm, Bool.and_assoc]

/-! ### All questions -/

theorem callers_eq_callersOf (hfiles : files ≠ []) (hname : Text.trim name ≠ "") :
    callers files name = .ok ⟨Text.trim name, callersOf (Text.trim name) files⟩ :=
  callers_eq hfiles hname

/-- The target is found in front, so the answer about all files begins with the one about these. -/
theorem prefix_dependenciesIn_append {fs gs : List Named}
    (h : (dependenciesIn fs t).target.isSome) :
    (dependenciesIn (fs ++ gs) t).target = (dependenciesIn fs t).target ∧
      (dependenciesIn (fs ++ gs) t).targetFile = (dependenciesIn fs t).targetFile ∧
      (dependenciesIn fs t).dependencies <+: (dependenciesIn (fs ++ gs) t).dependencies := by
  cases hfind : fs.find? (·.name = t) with
  | none =>
    have hnone : (dependenciesIn fs t).target = none := by rw [dependenciesIn, hfind]
    rw [hnone] at h
    cases h
  | some g =>
    have hfront := dependenciesIn_of_find? hfind
    rw [dependenciesIn_append hfind]
    exact ⟨by rw [hfront], by rw [hfront], List.prefix_append _ _⟩

/-- **Files put behind others only add to the answers.** Named functions, with their spans, and
findings of the two parts follow each other; callers behind count if their names are new; a target
that is found in front is the target of all files, and its dependencies there come first. -/
theorem answers_append (hA : A ≠ []) (hB : B ≠ []) :
    namedInAll (A ++ B) = namedInAll A ++ namedInAll B ∧
    (∀ ws : List String, (∃ w ∈ ws, Text.trim w ≠ "") →
      ∃ x y, keywordFindings A ws = .ok x ∧ keywordFindings B ws = .ok y ∧
        keywordFindings (A ++ B) ws = .ok (x ++ y)) ∧
    ∀ name : String, Text.trim name ≠ "" →
      (∃ a b, callers A name = .ok a ∧ callers B name = .ok b ∧
        callers (A ++ B) name = .ok ⟨a.target,
          a.callers ++ b.callers.filter (·.name ∉ a.callers.map (·.name))⟩) ∧
      ∃ d e, dependencies A name = .ok d ∧ dependencies (A ++ B) name = .ok e ∧
        (d.target.isSome → e.target = d.target ∧ e.targetFile = d.targetFile ∧
          d.dependencies <+: e.dependencies) := by
  have hAB : A ++ B ≠ [] := List.append_ne_nil_of_left_ne_nil hA B
  refine ⟨namedInAll_append A B, fun ws hws => ?_, fun name hname => ⟨?_, ?_⟩⟩
  · refine ⟨_, _, keywordFindings_eq hA hws, keywordFindings_eq hB hws, ?_⟩
    rw [keywordFindings_eq hAB hws, findingsIn_append]
  · refine ⟨_, _, callers_eq_callersOf hA hname, callers_eq_callersOf hB hname, ?_⟩
    rw [callers_eq_callersOf hAB hname, callersOf_append]
  · refine ⟨_, _, dependencies_eq hA hname, dependencies_eq hAB hname, ?_⟩
    rw [namedInAll_append]
    exact prefix_dependenciesIn_append

/-- Both parts have a caller of `step` named `go`. Of the files behind one is broken, and one has
the id of the file in front and a function that `go` calls there. -/
theorem answers_append_same_names :
    let go : String := "function go() { step(); run(); }"
    let A : List SourceFile := [.of "a.ts" (go ++ " function step() { }")]
    let B : List SourceFile := [.of "b.ts" "(", .of "a.ts" "function run() { step(); }",
      .of "c.ts" "function go() { step(); } function step() { }"]
    A ≠ [] ∧ B ≠ [] ∧ Text.trim "step" ≠ "" ∧ Text.trim "go" ≠ "" ∧
      callers (A ++ B) "step" = .ok ⟨"step",
        [⟨"go", go, some "a.ts"⟩, ⟨"run", "function run() { step(); }", some "a.ts"⟩]⟩ ∧
      ∃ e, dependencies (A ++ B) "go" = .ok e ∧ e.target = some go ∧ e.targetFile = some "a.ts" ∧
        [⟨"step", "function step() { }", "a.ts"⟩] <+: e.dependencies := by
  intro go A B
  have hA : A ≠ [] := List.cons_ne_nil _ _
  have hB : B ≠ [] := List.cons_ne_nil _ _
  have hstep : Text.trim "step" ≠ "" := by decide +kernel
  have hgo : Text.trim "go" ≠ "" := by decide +kernel
  obtain ⟨-, -, hnames⟩ := answers_append hA hB
  refine ⟨hA, hB, hstep, hgo, ?_, ?_⟩
  · have hfront : callers A "step" = .ok ⟨"step", [⟨"go", go, some "a.ts"⟩]⟩ := by decide +kernel
    have hbehind : callers B "step" = .ok ⟨"step",
        [⟨"run", "function run() { step(); }", some "a.ts"⟩,
          ⟨"go", "function go() { step(); }", some "c.ts"⟩]⟩ := by decide +kernel
    obtain ⟨⟨a, b, ha, hb, hab⟩, -⟩ := hnames "step" hstep
    obtain rfl := Except.ok.inj (hfront.symm.trans ha)
    obtain rfl := Except.ok.inj (hbehind.symm.trans hb)
    exact hab
  · have hfront : dependencies A "go" = .ok ⟨some go, some "a.ts",
        [⟨"step", "function step() { }", "a.ts"⟩]⟩ := by decide +kernel
    obtain ⟨-, d, e, hd, he, hfound⟩ := hnames "go" hgo
    obtain rfl := Except.ok.inj (hfront.symm.trans hd)
    exact ⟨e, he, hfound rfl⟩

end ScriptAtlas.Function
