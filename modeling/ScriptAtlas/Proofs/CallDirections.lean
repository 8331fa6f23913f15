import ScriptAtlas.Proofs.DependencyList
import ScriptAtlas.Proofs.FunctionIndex

/-! # Calls seen from both ends

Who calls a function is read off the call sites, each of which has the innermost function around it;
what a function calls is read off the names gathered in its whole subtree. The two agree: the
function of a site has gathered the name called there (`callee_mem_calls`), so a caller of `t` has
`t` among its dependencies (`dependencies_of_caller`). -/

namespace ScriptAtlas.Function

open Syntax

/-! ### One tree -/

/-- A function around a place holds the call there. -/
theorem Encloses.calls {tree n : Node} {a b : Address} {c : String} (h : Encloses tree b a)
    (hn : tree.at? b = some n) (hcall : (tree.at? a).bind calleeName? = some c) : Calls n c := by
  obtain ⟨rest, rfl⟩ := h.1
  rw [Node.at?_append, hn, Option.bind_some] at hcall
  obtain ⟨m, hm, hc⟩ := Option.bind_eq_some_iff.mp hcall
  exact ⟨rest, m, hm, hc⟩

/-- The innermost function around a call lists the name called. -/
theorem callee_mem_calls {tree : Node} {s : CallSite} {i : Nat} {e : Entry}
    (hs : s ∈ (Index.of tree).sites.toList) (hi : s.enclosing = some i)
    (he : (Index.of tree).functions[i]? = some e) : s.callee ∈ e.calls := by
  rw [toList_sites_of] at hs
  obtain ⟨k, hk⟩ := List.getElem?_of_mem hs
  obtain ⟨a, -, hsite⟩ := exists_of_forall₂_getElem? (forall₂_sitesIn tree 0 none) hk
  obtain ⟨hcallee, henclosing⟩ := hsite.isCallSiteAt
  rw [hi] at henclosing
  obtain ⟨-, b, hb, hinnermost⟩ := henclosing
  -- The entry at the position of the site is the one of the function at `b`.
  obtain ⟨b', hb', n, hn, hentry⟩ := exists_isEntryAt_of_getElem? he
  obtain rfl : b = b' := Option.some.inj (hb.symm.trans hb')
  exact (hentry.mem_calls _).mpr (hinnermost.1.calls hn hcallee)

/-! ### Several files -/

variable {files : List SourceFile} {file : SourceFile} {name t : String} {f : Named} {c : Caller}
  {cs : Callers}

theorem callersIn_eq_elim (t : String) (file : SourceFile) :
    callersIn t file = (Index.ofFile? file).elim [] fun index =>
      (index.sites.toList.filter (·.callee = t)).filterMap fun site =>
        site.enclosing.bind fun i => index.functions[i]?.bind (Named.of? file) := by
  unfold callersIn
  cases Index.ofFile? file <;> rfl

theorem mem_callersIn :
    f ∈ callersIn t file ↔ ∃ index, Index.ofFile? file = some index ∧
      ∃ site ∈ index.sites.toList, site.callee = t ∧ ∃ i, site.enclosing = some i ∧
        ∃ e, index.functions[i]? = some e ∧ Named.of? file e = some f := by
  rw [callersIn_eq_elim]
  cases Index.ofFile? file <;> simp [List.mem_filterMap, Option.bind_eq_some_iff, and_assoc]

theorem calls_of_of? {e : Entry} (h : Named.of? file e = some f) : f.calls = e.calls := by
  obtain ⟨_, -, rfl⟩ := Option.map_eq_some_iff.mp h
  rfl

/-- A caller is a named function that has the name called among its calls. -/
theorem mem_namedIn_of_mem_callersIn (h : f ∈ callersIn t file) :
    f ∈ namedIn file ∧ t ∈ f.calls := by
  obtain ⟨index, hindex, site, hsite, rfl, i, hi, e, he, hf⟩ := mem_callersIn.mp h
  obtain ⟨tree, -, rfl⟩ := Option.map_eq_some_iff.mp hindex
  have hmem : e ∈ (Index.of tree).functions.toList :=
    Array.mem_toList_iff.mpr (Array.mem_of_getElem? he)
  refine ⟨mem_namedIn.mpr ⟨_, hindex, List.mem_filterMap.mpr ⟨e, hmem, hf⟩⟩, ?_⟩
  rw [calls_of_of? hf]
  exact callee_mem_calls hsite hi he

/-- What is told of a function that calls another one. -/
def Named.caller (f : Named) : Caller := ⟨f.name, f.content, some f.file⟩

theorem callers_eq (hfiles : files ≠ []) (hname : Text.trim name ≠ "") :
    callers files name = .ok ⟨Text.trim name,
      (firstOfEach Named.name (files.flatMap (callersIn (Text.trim name)))).map Named.caller⟩ := by
  simp only [callers, requireFiles_eq_ok hfiles, target_eq_ok hname, bind, Except.bind,
    firstByName_eq]
  simp [pure, Except.pure, Named.caller]

theorem ne_nil_of_callers_eq_ok (h : callers files name = .ok cs) :
    files ≠ [] ∧ Text.trim name ≠ "" := by
  constructor
  · rintro rfl
    cases h
  · intro hname
    have htarget : target name = .error .noTarget := if_pos hname
    rw [callers, htarget] at h
    unfold requireFiles at h
    split at h <;> cases h

/-- A caller that is listed is a named function, told in full, that calls the name asked for. -/
theorem exists_named_of_mem_callers (h : callers files name = .ok cs) (hc : c ∈ cs.callers) :
    ∃ f ∈ namedInAll files, c = f.caller ∧ Text.trim name ∈ f.calls := by
  obtain ⟨hfiles, hname⟩ := ne_nil_of_callers_eq_ok h
  rw [callers_eq hfiles hname] at h
  cases h
  obtain ⟨f, hf, rfl⟩ := List.mem_map.mp hc
  obtain ⟨file, hfile, hf⟩ := List.mem_flatMap.mp (mem_of_mem_firstOfEach hf)
  obtain ⟨hnamed, hcalls⟩ := mem_namedIn_of_mem_callersIn hf
  exact ⟨f, List.mem_flatMap.mpr ⟨file, hfile, hnamed⟩, rfl, hcalls⟩

/-! ### Both questions -/

theorem find?_of_countP_eq_one {all : List Named} (hcount : all.countP (·.name = f.name) = 1)
    (hf : f ∈ all) : all.find? (·.name = f.name) = some f := by
  have hfilter : f ∈ all.filter (·.name = f.name) := List.mem_filter.mpr ⟨hf, by simp⟩
  obtain ⟨g, hg⟩ := List.length_eq_one_iff.mp (List.countP_eq_length_filter ▸ hcount)
  rw [hg, List.mem_singleton] at hfilter
  rw [← List.head?_filter, hg, hfilter]
  rfl

/-- **Both directions agree.** If `c` is listed among the callers of a function that is defined, is
another one and is the only one of its name, then asking what `c` depends on finds just `c`, and
the function called is among the answers. -/
theorem dependencies_of_caller (hcallers : callers files name = .ok cs) (hc : c ∈ cs.callers)
    (hother : c.name ≠ Text.trim name) (htrim : Text.trim c.name = c.name) (hempty : c.name ≠ "")
    (hunique : (namedInAll files).countP (·.name = c.name) = 1)
    (hdefined : ∃ f ∈ namedInAll files, f.name = Text.trim name) :
    ∃ d, dependencies files c.name = .ok d ∧ d.target = some c.content ∧ d.targetFile = c.file ∧
      ∃ x ∈ d.dependencies, x.name = Text.trim name := by
  obtain ⟨f, hf, rfl, hcalls⟩ := exists_named_of_mem_callers hcallers hc
  have hfind : (namedInAll files).find? (·.name = f.name) = some f :=
    find?_of_countP_eq_one hunique hf
  have hasked := dependencies_eq (ne_nil_of_callers_eq_ok hcallers).1 (htrim.symm ▸ hempty)
  rw [htrim] at hasked
  have hanswer := dependenciesIn_of_find? hfind
  refine ⟨_, hasked, congrArg (·.target) hanswer, congrArg (·.targetFile) hanswer, ?_⟩
  have hmem := (mem_names_dependenciesIn hfind).mpr
    ⟨hother.symm, hcalls, List.mem_map.mpr hdefined⟩
  exact List.mem_map.mp hmem

/-- A method calls a function of another file. -/
theorem dependencies_of_caller_method :
    let files : List SourceFile :=
      [.of "a.ts" "class K { run() { step(); } }", .of "b.ts" "function step() { run(); }"]
    let c : Caller := ⟨"run", "run() { step(); }", some "a.ts"⟩
    callers files "step " = .ok ⟨"step", [c]⟩ ∧ c.name ≠ Text.trim "step " ∧
      Text.trim c.name = c.name ∧ c.name ≠ "" ∧
      (namedInAll files).countP (·.name = c.name) = 1 ∧
      (∃ f ∈ namedInAll files, f.name = Text.trim "step ") ∧
      ∃ d, dependencies files c.name = .ok d ∧ d.target = some c.content ∧ d.targetFile = c.file ∧
        ∃ x ∈ d.dependencies, x.name = Text.trim "step " := by
  intro files c
  have hcallers : callers files "step " = .ok ⟨"step", [c]⟩ := by decide +kernel
  have hother : c.name ≠ Text.trim "step " := by decide +kernel
  have htrim : Text.trim c.name = c.name := by decide +kernel
  have hempty : c.name ≠ "" := by decide
  have hall : namedInAll files =
      [⟨"run", "a.ts", ⟨10, 27⟩, "run() { step(); }", ["step"], 1⟩,
        ⟨"step", "b.ts", ⟨0, 26⟩, "function step() { run(); }", ["run"], 1⟩] := by decide +kernel
  have hunique : (namedInAll files).countP (·.name = c.name) = 1 := by
    rw [hall]
    decide
  have hdefined : ∃ f ∈ namedInAll files, f.name = Text.trim "step " := by
    rw [hall]
    decide +kernel
  exact ⟨hcallers, hother, htrim, hempty, hunique, hdefined,
    dependencies_of_caller hcallers (List.mem_singleton.mpr rfl) hother htrim hempty hunique
      hdefined⟩

end ScriptAtlas.Function
