import Mathlib.Data.List.Sort
import ScriptAtlas.Proofs.AppendedFiles

/-! # Who is listed as a caller

A call counts for the innermost function around it and for no other one. `callerAt?` reads off a
tree what the call at a place tells: the name and the content of that function, and nothing if there
is none or if it has no name. The callers of `t` are what the calls of `t` tell, in the order of the
files and of the text, of each name the first (`callers_exact`). The index that answers are made
from lists the same calls with the same functions (`callerOfSite_eq`). -/

namespace ScriptAtlas

open Syntax

namespace Syntax.Node

/-- The places of some nodes among those of more nodes. -/
theorem addressesWhere_eq_filter {p q : Node → Bool} (h : ∀ m, q m = true → p m = true) (n : Node) :
    n.addressesWhere q = (n.addressesWhere p).filter fun a => (n.at? a).any q := by
  refine n.sorted_addressesWhere.eq_of_mem_iff (n.sorted_addressesWhere.filter _) fun a => ?_
  rw [mem_addressesWhere, List.mem_filter, mem_addressesWhere, Option.any_eq_true]
  constructor
  · rintro ⟨m, hm, hq⟩
    exact ⟨⟨m, hm, h m hq⟩, m, hm, hq⟩
  · rintro ⟨-, hq⟩
    exact hq

end Syntax.Node

namespace Function

/-! ### The innermost function -/

/-- The functions around a place, outer ones first. -/
def functionsAround (tree : Node) (a : Address) : List Address :=
  (tree.addressesWhere isFunction).filter fun b => b <+: a ∧ b ≠ a

/-- The innermost function around a place. -/
def innermostAround? (tree : Node) (a : Address) : Option Address :=
  (functionsAround tree a).getLast?

theorem mem_functionsAround {tree : Node} {a b : Address} :
    b ∈ functionsAround tree a ↔ Encloses tree b a := by
  rw [functionsAround, List.mem_filter, tree.mem_addressesWhere, decide_eq_true_eq, Encloses]
  tauto

/-- Of two functions around a place, the one listed first is around the other. -/
theorem pairwise_functionsAround (tree : Node) (a : Address) :
    (functionsAround tree a).Pairwise (· <+: ·) := by
  have hsorted : (functionsAround tree a).Pairwise (· < ·) := tree.sorted_addressesWhere.filter _
  refine hsorted.imp_of_mem fun {b c} hb hc hlt => ?_
  have hb := (mem_functionsAround.mp hb).1
  have hc := (mem_functionsAround.mp hc).1
  rcases List.prefix_or_prefix_of_prefix hb hc with hle | hle
  · exact hle
  · exact absurd hlt hle.le

theorem IsInnermostAround.eq {tree : Node} {a b c : Address} (hb : IsInnermostAround tree b a)
    (hc : IsInnermostAround tree c a) : b = c :=
  (hc.2 b hb.1).eq_of_length_le (hb.2 c hc.1).length_le

theorem innermostAround?_eq_some_iff {tree : Node} {a b : Address} :
    innermostAround? tree a = some b ↔ IsInnermostAround tree b a := by
  have hlast : ∀ c, innermostAround? tree a = some c → IsInnermostAround tree c a := by
    intro c hc
    obtain ⟨outer, houter⟩ := List.getLast?_eq_some_iff.mp hc
    have hpairwise := pairwise_functionsAround tree a
    rw [houter] at hpairwise
    refine ⟨mem_functionsAround.mp (by simp [houter]), fun d hd => ?_⟩
    have hd := mem_functionsAround.mpr hd
    rw [houter] at hd
    rcases List.mem_append.mp hd with hd | hd
    · exact (List.pairwise_append.mp hpairwise).2.2 d hd c (by simp)
    · exact List.mem_singleton.mp hd ▸ List.prefix_rfl
  constructor
  · exact hlast b
  · intro hb
    have hne : functionsAround tree a ≠ [] := List.ne_nil_of_mem (mem_functionsAround.mpr hb.1)
    have hsome : innermostAround? tree a = some ((functionsAround tree a).getLast hne) :=
      List.getLast?_eq_getLast_of_ne_nil hne
    rw [hsome, (hlast _ hsome).eq hb]

theorem innermostAround?_eq_none {tree : Node} {a : Address} (h : ∀ b, ¬ Encloses tree b a) :
    innermostAround? tree a = none := by
  rw [innermostAround?, List.getLast?_eq_none_iff, List.eq_nil_iff_forall_not_mem]
  exact fun b hb => h b (mem_functionsAround.mp hb)

/-! ### What a call tells -/

/-- The function at a place as a caller, if it has a name. -/
def callerFrom? (file : SourceFile) (tree : Node) (b : Address) : Option Caller :=
  (tree.at? b).bind fun n => (nameOf n (tree.parentAt? none b)).map fun name =>
    let span := shownSpan n (tree.parentAt? none b)
    ⟨name, Text.slice file.content span.start span.stop, some file.id⟩

/-- The caller that the call at a place tells: the innermost function around it, if it has a
name. -/
def callerAt? (file : SourceFile) (tree : Node) (a : Address) : Option Caller :=
  (innermostAround? tree a).bind (callerFrom? file tree)

/-- What the calls of `t` in a file tell, in the order of the text; nothing if the file cannot be
read. -/
def callersAt (t : String) (file : SourceFile) : List Caller :=
  file.tree?.elim [] fun tree =>
    (tree.addressesWhere (calleeName? · = some t)).filterMap (callerAt? file tree)

theorem callerFrom?_eq_some_iff {file : SourceFile} {tree : Node} {b : Address} {c : Caller} :
    callerFrom? file tree b = some c ↔
      ∃ n name, tree.at? b = some n ∧ nameOf n (tree.parentAt? none b) = some name ∧
        c = ⟨name, Text.slice file.content (shownSpan n (tree.parentAt? none b)).start
          (shownSpan n (tree.parentAt? none b)).stop, some file.id⟩ := by
  rw [callerFrom?, Option.bind_eq_some_iff]
  simp only [Option.map_eq_some_iff]
  constructor
  · rintro ⟨n, hn, name, hname, rfl⟩
    exact ⟨n, name, hn, hname, rfl⟩
  · rintro ⟨n, name, hn, hname, rfl⟩
    exact ⟨n, hn, name, hname, rfl⟩

theorem callerAt?_eq_some_iff {file : SourceFile} {tree : Node} {a : Address} {c : Caller} :
    callerAt? file tree a = some c ↔
      ∃ b, IsInnermostAround tree b a ∧ callerFrom? file tree b = some c := by
  simp only [callerAt?, Option.bind_eq_some_iff, innermostAround?_eq_some_iff]

/-! ### What the index tells -/

/-- The caller that a call site of an index tells. -/
def callerOfSite (file : SourceFile) (index : Index) (s : CallSite) : Option Caller :=
  (s.enclosing.bind fun i => index.functions[i]?.bind (Named.of? file)).map Named.caller

theorem caller_of?_eq {file : SourceFile} {tree : Node} {b : Address} {e : Entry}
    (h : IsEntryAt none tree b e) :
    (Named.of? file e).map Named.caller = callerFrom? file tree b := by
  obtain ⟨n, hn, hentry⟩ := h
  rw [callerFrom?, hn, Option.bind_some, ← hentry.name_eq, ← hentry.span_eq, Named.of?,
    Option.map_map]
  rfl

theorem callerOfSite_eq (file : SourceFile) {tree : Node} {a : Address} {s : CallSite}
    (h : IsCallSiteAt tree a s) :
    callerOfSite file (Index.of tree) s = callerAt? file tree a := by
  obtain ⟨-, henclosing⟩ := h
  rw [callerOfSite, callerAt?]
  cases hi : s.enclosing with
  | none =>
    rw [hi] at henclosing
    rw [innermostAround?_eq_none henclosing]
    rfl
  | some i =>
    rw [hi] at henclosing
    obtain ⟨hlt, b, hb, hinnermost⟩ := henclosing
    have he := Array.getElem?_eq_getElem hlt
    obtain ⟨b', hb', hentry⟩ := exists_isEntryAt_of_getElem? he
    obtain rfl : b = b' := Option.some.inj (hb.symm.trans hb')
    rw [innermostAround?_eq_some_iff.mpr hinnermost, Option.bind_some, Option.bind_some, he,
      Option.bind_some, caller_of?_eq hentry]

theorem filterMap_eq_of_forall₂ {α β γ : Type} {R : α → β → Prop} {f : α → Option γ}
    {g : β → Option γ} {as : List α} {bs : List β} (h : List.Forall₂ R as bs)
    (hfg : ∀ a b, R a b → f a = g b) : as.filterMap f = bs.filterMap g := by
  induction h with
  | nil => rfl
  | cons hab _ ih => rw [List.filterMap_cons, List.filterMap_cons, hfg _ _ hab, ih]

/-- The index of a tree tells of each call of `t` what the tree tells. -/
theorem filterMap_callerOfSite (t : String) (file : SourceFile) (tree : Node) :
    ((Index.of tree).sites.toList.filter (·.callee = t)).filterMap
        (callerOfSite file (Index.of tree)) =
      (tree.addressesWhere (calleeName? · = some t)).filterMap (callerAt? file tree) := by
  have hcalls : tree.addressesWhere (calleeName? · = some t) =
      (tree.addressesWhere isNamedCall).filter
        fun a => (tree.at? a).any (calleeName? · = some t) :=
    Node.addressesWhere_eq_filter (fun m hm => by simp [isNamedCall, of_decide_eq_true hm]) tree
  have hsites : List.Forall₂ (IsCallSiteAt tree) (tree.addressesWhere isNamedCall)
      (Index.of tree).sites.toList := by
    rw [toList_sites_of]
    exact (forall₂_sitesIn tree 0 none).imp fun _ _ => IsSiteAt.isCallSiteAt
  rw [hcalls, List.filterMap_filter, List.filterMap_filter]
  refine (filterMap_eq_of_forall₂ hsites fun a s hs => ?_).symm
  obtain ⟨n, hn, hcallee⟩ := Option.bind_eq_some_iff.mp hs.1
  simp only [hn, Option.any_some, hcallee, Option.some.injEq, callerOfSite_eq file hs]

theorem map_caller_callersIn (t : String) (file : SourceFile) :
    (callersIn t file).map Named.caller = callersAt t file := by
  rw [callersIn_eq_elim, callersAt, Index.ofFile?]
  cases file.tree? with
  | none => rfl
  | some tree => exact List.map_filterMap.trans (filterMap_callerOfSite t file tree)

/-! ### The answers -/

theorem callersOf_eq (t : String) (files : List SourceFile) :
    callersOf t files = firstOfEach Caller.name (files.flatMap (callersAt t)) := by
  have hflat : files.flatMap (callersAt t) =
      (files.flatMap (callersIn t)).map Named.caller := by
    rw [List.map_flatMap]
    exact congrArg (List.flatMap · files) (funext fun file => (map_caller_callersIn t file).symm)
  rw [hflat, firstOfEach_map]
  rfl

/-- Callers without the file they stand in. -/
def Callers.unplaced (cs : Callers) : Callers :=
  { cs with callers := cs.callers.map ({ · with file := none }) }

/-- A piece of code is asked like a single file. -/
theorem callersInCode_eq (code name : String) :
    callersInCode code name = (callers [.of "snippet.ts" code] name).map Callers.unplaced := by
  have hfile : SourceFile.of "snippet.ts" code = .snippet code := rfl
  have hsingle : [SourceFile.snippet code].flatMap (callersIn (Text.trim name)) =
      callersIn (Text.trim name) (.snippet code) := List.flatMap_singleton ..
  rw [hfile, callersInCode, callers]
  by_cases hname : Text.trim name = ""
  · have htarget : target name = .error .noTarget := if_pos hname
    rw [htarget]
    rfl
  · rw [target_eq_ok hname, requireFiles_eq_ok (List.cons_ne_nil _ _)]
    simp only [bind, Except.bind, hsingle]
    simp [pure, Except.pure, Except.map, Callers.unplaced]

theorem callers_eq_nil_of_tree? {file : SourceFile} {name : String} (htree : file.tree? = none)
    (hname : Text.trim name ≠ "") : callers [file] name = .ok ⟨Text.trim name, []⟩ := by
  have hnone : [file].flatMap (callersAt (Text.trim name)) = [] := by
    rw [List.flatMap_singleton, callersAt, htree]
    rfl
  rw [callers_eq_callersOf (List.cons_ne_nil _ _) hname, callersOf_eq, hnone]
  rfl

/-- **Caller lists are exact.** The callers of a name are what its calls tell, in the order of the
files and of the text, of each name of a function the first; a piece of code is asked like a single
file, and has no callers if it cannot be read. A call tells the innermost function around it, with
its content and file, if that function has a name; a call outside functions, or right inside one
without a name, tells nothing, whatever is further around it. -/
theorem callers_exact {name : String} (hname : Text.trim name ≠ "") :
    (∀ files : List SourceFile, files ≠ [] →
      callers files name = .ok ⟨Text.trim name,
        firstOfEach Caller.name (files.flatMap (callersAt (Text.trim name)))⟩) ∧
    (∀ code : String,
      callersInCode code name = (callers [.of "snippet.ts" code] name).map Callers.unplaced ∧
      ((SourceFile.of "snippet.ts" code).tree? = none →
        callersInCode code name = .ok ⟨Text.trim name, []⟩)) ∧
    ∀ (file : SourceFile) (tree : Node) (a : Address) (c : Caller),
      callerAt? file tree a = some c ↔
        ∃ b n f, IsInnermostAround tree b a ∧ tree.at? b = some n ∧
          nameOf n (tree.parentAt? none b) = some f ∧
          c = ⟨f, Text.slice file.content (shownSpan n (tree.parentAt? none b)).start
            (shownSpan n (tree.parentAt? none b)).stop, some file.id⟩ := by
  refine ⟨fun files hfiles => ?_, fun code => ⟨callersInCode_eq code name, fun htree => ?_⟩, ?_⟩
  · rw [callers_eq_callersOf hfiles hname, callersOf_eq]
  · rw [callersInCode_eq, callers_eq_nil_of_tree? htree hname]
    rfl
  · intro file tree a c
    rw [callerAt?_eq_some_iff]
    simp only [callerFrom?_eq_some_iff]
    constructor
    · rintro ⟨b, hb, n, f, hn, hf, hc⟩
      exact ⟨b, n, f, hb, hn, hf, hc⟩
    · rintro ⟨b, n, f, hb, hn, hf, hc⟩
      exact ⟨b, hb, n, f, hn, hf, hc⟩

/-- The first call of `step` is right inside an arrow without a name and the third is outside all
functions; one file is broken; and two functions are named `go`. -/
theorem callers_exact_attributed :
    let go : String := "function go() { xs.map(() => step()); step(); }"
    let files : List SourceFile := [.of "a.ts" (go ++ " step();"), .of "b.ts" "(",
      .of "c.ts" "class K { run() { x.step(); } } const go = () => step();"]
    Text.trim " step\n" ≠ "" ∧ files ≠ [] ∧
      callers files " step\n" = .ok ⟨"step",
        [⟨"go", go, some "a.ts"⟩, ⟨"run", "run() { x.step(); }", some "c.ts"⟩]⟩ ∧
      callersInCode go " step\n" = .ok ⟨"step", [⟨"go", go, none⟩]⟩ ∧
      callersInCode "(" " step\n" = .ok ⟨"step", []⟩ := by
  intro go files
  have hname : Text.trim " step\n" ≠ "" := by decide +kernel
  have hfiles : files ≠ [] := List.cons_ne_nil _ _
  have htrim : Text.trim " step\n" = "step" := by decide +kernel
  obtain ⟨hcallers, hcode, -⟩ := callers_exact hname
  have hfirst : firstOfEach Caller.name (files.flatMap (callersAt "step")) =
      [⟨"go", go, some "a.ts"⟩, ⟨"run", "run() { x.step(); }", some "c.ts"⟩] := by decide +kernel
  have hsnippet : firstOfEach Caller.name ([.of "snippet.ts" go].flatMap (callersAt "step")) =
      [⟨"go", go, some "snippet.ts"⟩] := by decide +kernel
  refine ⟨hname, hfiles, ?_, ?_, ?_⟩
  · rw [hcallers files hfiles, htrim, hfirst]
  · rw [(hcode go).1, hcallers _ (List.cons_ne_nil _ _), htrim, hsnippet]
    rfl
  · rw [(hcode "(").2 (by decide +kernel), htrim]

end Function

end ScriptAtlas
