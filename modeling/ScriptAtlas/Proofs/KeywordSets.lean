import Mathlib.Data.Finset.Basic
import Mathlib.Data.Finset.Lattice.Lemmas
import Mathlib.Data.List.Infix
import Mathlib.Data.List.TakeWhile
import ScriptAtlas.Proofs.CallerAttribution
import ScriptAtlas.Proofs.WordSets

/-! # Searching for a set of keywords

A search for keywords trims them, drops the blank ones and reports, of each function with a name,
which of them occur in its text. What is found depends on the keywords only as a set
(`keywordFindings_congr`), so that their order, repetitions, blank entries and white space around
them do not count (`Respelled.keywordSet_eq`). A search for two lists together finds in each function
what the two searches find in it (`findingAt?_append`). -/

namespace ScriptAtlas

open Syntax

namespace Text

variable {cs before after part : List Char}

/-! ### Trimming and occurrences -/

theorem trimRight_append (xs : List Char) (h : ∀ c ∈ after, isBlank c = true) :
    trimRight (xs ++ after) = trimRight xs := by
  rw [trimRight, List.reverse_append, List.dropWhile_append_of_pos (by simpa using h), trimRight]

theorem trimChars_eq_nil_iff : trimChars cs = [] ↔ ∀ c ∈ cs, isBlank c = true := by
  rw [trimChars, trimRight, List.reverse_eq_nil_iff, List.dropWhile_eq_nil_iff]
  constructor
  · intro h
    -- What is left in front opens with a character that is no blank.
    refine List.dropWhile_eq_nil_iff.mp ?_
    by_contra hne
    have hhead := List.head_dropWhile_not isBlank hne
    rw [h _ (by simp)] at hhead
    cases hhead
  · intro h c hc
    exact h c ((List.dropWhile_sublist _).subset (List.mem_reverse.mp hc))

/-- Blanks around a text go with those at its ends. -/
theorem trimChars_surround (hbefore : ∀ c ∈ before, isBlank c = true)
    (hafter : ∀ c ∈ after, isBlank c = true) :
    trimChars (before ++ cs ++ after) = trimChars cs := by
  rw [trimChars, List.append_assoc, List.dropWhile_append_of_pos hbefore, List.dropWhile_append]
  split
  · next hempty =>
    rw [List.isEmpty_iff] at hempty
    rw [List.dropWhile_eq_nil_iff.mpr hafter, trimChars, hempty]
  · exact trimRight_append _ hafter

theorem occursIn_iff_isInfix : occursIn part cs = true ↔ part <:+: cs := by
  induction cs with
  | nil => rw [occursIn, List.isEmpty_iff, List.infix_nil]
  | cons c cs ih =>
    rw [occursIn, Bool.or_eq_true, List.isPrefixOf_iff_prefix, ih, List.infix_cons_iff]

end Text

namespace Function

variable {ws A B : List String} {content k : String} {files : List SourceFile}

/-! ### Keywords -/

/-- Nothing but white space. -/
def IsBlank (w : String) : Prop := ∀ c ∈ w.toList, Text.isBlank c = true

instance (w : String) : Decidable (IsBlank w) :=
  decidable_of_iff (w.toList.all Text.isBlank = true) List.all_eq_true

theorem trim_eq_empty_iff {w : String} : Text.trim w = "" ↔ IsBlank w := by
  rw [IsBlank, ← Text.trimChars_eq_nil_iff, Text.trim]
  simp

/-- The keywords that are not blank, without the white space around them. -/
def keywordSet (ws : List String) : Finset String := {k ∈ (ws.map Text.trim).toFinset | k ≠ ""}

/-- The keywords that occur in a text. -/
def mentioned (ws : List String) (content : String) : Finset String :=
  {k ∈ keywordSet ws | k.toList <:+: content.toList}

theorem mem_keywordSet : k ∈ keywordSet ws ↔ k ∈ (ws.map Text.trim).filter (· ≠ "") := by
  rw [keywordSet, Finset.mem_filter, List.mem_toFinset, List.mem_filter, decide_eq_true_eq]

theorem keywordSet_append (A B : List String) :
    keywordSet (A ++ B) = keywordSet A ∪ keywordSet B := by
  rw [keywordSet, List.map_append, List.toFinset_append, Finset.filter_union]
  rfl

theorem keywordSet_eq_empty_iff : keywordSet ws = ∅ ↔ ∀ w ∈ ws, IsBlank w := by
  rw [keywordSet, Finset.filter_eq_empty_iff]
  simp only [List.mem_toFinset, List.forall_mem_map, not_not, trim_eq_empty_iff]

/-- Keywords written differently: in another order, more often or less often, with blank ones among
them or without, and with other white space around them. -/
inductive Respelled : List String → List String → Prop
  | permuted {A B : List String} (h : A.Perm B) : Respelled A B
  | repeated {A : List String} {w : String} (h : w ∈ A) : Respelled A (w :: A)
  | padded {A : List String} {w : String} (h : IsBlank w) : Respelled A (w :: A)
  | surrounded {A : List String} {before w after : String} (hbefore : IsBlank before)
      (hafter : IsBlank after) : Respelled (w :: A) ((before ++ w ++ after) :: A)
  | symm {A B : List String} (h : Respelled A B) : Respelled B A
  | trans {A B C : List String} (h : Respelled A B) (h' : Respelled B C) : Respelled A C

theorem Respelled.keywordSet_eq (h : Respelled A B) : keywordSet A = keywordSet B := by
  induction h with
  | permuted h =>
    rw [keywordSet, List.toFinset_eq_of_perm _ _ (h.map _)]
    rfl
  | @repeated A w h =>
    have hmem : Text.trim w ∈ A.map Text.trim := List.mem_map_of_mem h
    rw [keywordSet, keywordSet, List.map_cons, List.toFinset_cons,
      Finset.insert_eq_of_mem (List.mem_toFinset.mpr hmem)]
  | padded h =>
    rw [keywordSet, keywordSet, List.map_cons, List.toFinset_cons, trim_eq_empty_iff.mpr h,
      Finset.filter_insert, if_neg (by simp)]
  | @surrounded A before w after hbefore hafter =>
    have htrim : Text.trim (before ++ w ++ after) = Text.trim w := by
      rw [Text.trim, String.toList_append, String.toList_append,
        Text.trimChars_surround hbefore hafter, Text.trim]
    rw [keywordSet, keywordSet, List.map_cons, List.map_cons, htrim]
  | symm _ ih => exact ih.symm
  | trans _ _ ih ih' => exact ih.trans ih'

/-! ### What is found in a text -/

/-- The keywords that occur in a text, in ascending order. -/
def foundIn (ws : List String) (content : String) : List String :=
  wordSet (((ws.map Text.trim).filter (· ≠ "")).filter fun k =>
    Text.occursIn k.toList content.toList)

theorem mem_foundIn : k ∈ foundIn ws content ↔ k ∈ mentioned ws content := by
  rw [foundIn, mem_wordSet, List.mem_filter, ← mem_keywordSet, Text.occursIn_iff_isInfix, mentioned,
    Finset.mem_filter]

/-- Words in ascending order are told by what is among them. -/
theorem foundIn_eq_of_mem_iff {found : List String} (hfound : found.Pairwise (· < ·))
    (h : ∀ k, k ∈ mentioned ws content ↔ k ∈ found) : foundIn ws content = found :=
  (pairwise_wordSet _).eq_of_mem_iff hfound fun k => mem_foundIn.trans (h k)

theorem mentioned_append (A B : List String) (content : String) :
    mentioned (A ++ B) content = mentioned A content ∪ mentioned B content := by
  rw [mentioned, keywordSet_append, Finset.filter_union]
  rfl

theorem foundIn_append (A B : List String) (content : String) :
    foundIn (A ++ B) content = wordSet (foundIn A content ++ foundIn B content) := by
  refine foundIn_eq_of_mem_iff (pairwise_wordSet _) fun k => ?_
  rw [mem_wordSet, List.mem_append, mem_foundIn, mem_foundIn, mentioned_append, Finset.mem_union]

theorem foundIn_congr (h : keywordSet A = keywordSet B) (content : String) :
    foundIn A content = foundIn B content := by
  refine foundIn_eq_of_mem_iff (pairwise_wordSet _) fun k => ?_
  rw [mentioned, h]
  exact mem_foundIn.symm

/-! ### What is found in a function -/

/-- The finding for a function with a name, if a keyword occurs in its text. -/
def findingFrom? (ws : List String) (f : Caller) : Option Finding :=
  if foundIn ws f.content = [] then none
  else some ⟨f.name, foundIn ws f.content, f.content, f.file⟩

/-- The finding for the function at a place of a file. -/
def findingAt? (ws : List String) (file : SourceFile) (tree : Node) (a : Address) :
    Option Finding :=
  (callerFrom? file tree a).bind (findingFrom? ws)

/-- The findings in a file, one for each of its functions that has one, in pre-order; none if the
file cannot be read. -/
def findingsAt (ws : List String) (file : SourceFile) : List Finding :=
  file.tree?.elim [] fun tree =>
    (tree.addressesWhere isFunction).filterMap (findingAt? ws file tree)

theorem finding?_eq (ws : List String) (f : Named) :
    finding? ((ws.map Text.trim).filter (· ≠ "")) true f = findingFrom? ws f.caller := by
  have hcontent : f.caller.content = f.content := rfl
  unfold finding? findingFrom?
  rw [hcontent]
  split
  · next hnil => exact (if_pos hnil).symm
  · next hne => exact (if_neg hne).symm

theorem filterMap_namedIn (ws : List String) (file : SourceFile) :
    (namedIn file).filterMap (finding? ((ws.map Text.trim).filter (· ≠ "")) true) =
      findingsAt ws file := by
  rw [namedIn_eq_getD, findingsAt, Index.ofFile?]
  cases file.tree? with
  | none => rfl
  | some tree =>
    show ((Index.of tree).functions.toList.filterMap (Named.of? file)).filterMap _ = _
    rw [toList_functions_of, List.filterMap_filterMap]
    refine (filterMap_eq_of_forall₂ (forall₂_entriesIn tree none) fun a e he => ?_).symm
    rw [findingAt?, ← caller_of?_eq he, Option.bind_map]
    exact congrArg _ (funext fun f => (finding?_eq ws f).symm)

/-- What two searches find in a function, taken together. -/
def Finding.join : Option Finding → Option Finding → Option Finding
  | some x, some y => some { x with foundKeywords := wordSet (x.foundKeywords ++ y.foundKeywords) }
  | some x, none => some x
  | none, y => y

theorem findingFrom?_append (A B : List String) (f : Caller) :
    findingFrom? (A ++ B) f = Finding.join (findingFrom? A f) (findingFrom? B f) := by
  have hboth := foundIn_append A B f.content
  have hA : wordSet (foundIn A f.content) = foundIn A f.content :=
    wordSet_eq_self (pairwise_wordSet _)
  have hB : wordSet (foundIn B f.content) = foundIn B f.content :=
    wordSet_eq_self (pairwise_wordSet _)
  unfold findingFrom?
  by_cases hnoneA : foundIn A f.content = []
  · rw [hnoneA, List.nil_append, hB] at hboth
    rw [if_pos hnoneA, hboth]
    rfl
  · rw [if_neg hnoneA]
    by_cases hnoneB : foundIn B f.content = []
    · rw [hnoneB, List.append_nil, hA] at hboth
      rw [if_pos hnoneB, hboth, if_neg hnoneA]
      rfl
    · have hsome : foundIn (A ++ B) f.content ≠ [] := by
        obtain ⟨k, hk⟩ := List.exists_mem_of_ne_nil _ hnoneA
        refine List.ne_nil_of_mem (a := k) ?_
        rw [hboth, mem_wordSet]
        exact List.mem_append_left _ hk
      rw [if_neg hsome, if_neg hnoneB, hboth]
      rfl

theorem findingAt?_append (A B : List String) (file : SourceFile) (tree : Node) (a : Address) :
    findingAt? (A ++ B) file tree a =
      Finding.join (findingAt? A file tree a) (findingAt? B file tree a) := by
  unfold findingAt?
  cases callerFrom? file tree a with
  | none => rfl
  | some f => exact findingFrom?_append A B f

/-- What is reported of the function at a place: it has a name, it is shown with its text and file,
and the keywords reported are those that occur in the text, at least one. -/
structure IsFindingAt (ws : List String) (file : SourceFile) (tree : Node) (a : Address)
    (x : Finding) : Prop where
  function_at : ∃ n, tree.at? a = some n ∧
    nameOf n (tree.parentAt? none a) = some x.functionName ∧
    x.content = Text.slice file.content (shownSpan n (tree.parentAt? none a)).start
      (shownSpan n (tree.parentAt? none a)).stop
  file_eq : x.file = some file.id
  ascending : x.foundKeywords.Pairwise (· < ·)
  toFinset_eq : x.foundKeywords.toFinset = mentioned ws x.content
  ne_nil : x.foundKeywords ≠ []

theorem findingAt?_eq_some_iff {file : SourceFile} {tree : Node} {a : Address} {x : Finding} :
    findingAt? ws file tree a = some x ↔ IsFindingAt ws file tree a x := by
  rw [findingAt?, Option.bind_eq_some_iff]
  constructor
  · rintro ⟨f, hf, hx⟩
    obtain ⟨n, name, hn, hname, rfl⟩ := callerFrom?_eq_some_iff.mp hf
    unfold findingFrom? at hx
    split at hx
    · cases hx
    · next hne =>
      obtain rfl := Option.some.inj hx
      refine ⟨⟨n, hn, hname, rfl⟩, rfl, pairwise_wordSet _, ?_, hne⟩
      ext k
      rw [List.mem_toFinset]
      exact mem_foundIn
  · rintro ⟨⟨n, hn, hname, hcontent⟩, hfile, hascending, hfound, hne⟩
    have hwords : foundIn ws x.content = x.foundKeywords := by
      refine foundIn_eq_of_mem_iff hascending fun k => ?_
      rw [← hfound, List.mem_toFinset]
    refine ⟨⟨x.functionName, x.content, x.file⟩,
      callerFrom?_eq_some_iff.mpr ⟨n, x.functionName, hn, hname, ?_⟩, ?_⟩
    · rw [hcontent, hfile]
    · rw [findingFrom?, hwords, if_neg hne]

/-! ### What is found in files -/

theorem findingsIn_eq (ws : List String) (files : List SourceFile) :
    findingsIn ((ws.map Text.trim).filter (· ≠ "")) files = files.flatMap (findingsAt ws) := by
  rw [findingsIn, namedInAll, List.filterMap_flatMap]
  exact congrArg (List.flatMap · files) (funext (filterMap_namedIn ws))

/-- The answer to a search: no files are refused first, then blank keywords. -/
theorem keywordFindings_eq_ite (files : List SourceFile) (ws : List String) :
    keywordFindings files ws =
      if files = [] then .error .noFiles
      else if ∀ w ∈ ws, IsBlank w then .error .noKeywords
      else .ok (files.flatMap (findingsAt ws)) := by
  by_cases hfiles : files = []
  · rw [if_pos hfiles, hfiles]
    rfl
  rw [if_neg hfiles]
  by_cases hblank : ∀ w ∈ ws, IsBlank w
  · have hnil : (ws.map Text.trim).filter (· ≠ "") = [] := by
      refine List.filter_eq_nil_iff.mpr (List.forall_mem_map.mpr fun w hw => ?_)
      simp [trim_eq_empty_iff.mpr (hblank w hw)]
    have hkeywords : keywords ws = .error .noKeywords := by
      rw [keywords, hnil]
    rw [if_pos hblank, keywordFindings, requireFiles_eq_ok hfiles, hkeywords]
    rfl
  · have hsome : ∃ w ∈ ws, Text.trim w ≠ "" := by
      by_contra hnone
      refine hblank fun w hw => trim_eq_empty_iff.mp ?_
      by_contra hne
      exact hnone ⟨w, hw, hne⟩
    rw [if_neg hblank, keywordFindings_eq hfiles hsome, findingsIn_eq]

theorem findingsAt_congr (h : keywordSet A = keywordSet B) : findingsAt A = findingsAt B := by
  have hfrom : findingFrom? A = findingFrom? B := by
    funext f
    rw [findingFrom?, findingFrom?, foundIn_congr h]
  have hat : findingAt? A = findingAt? B := by
    funext file tree a
    rw [findingAt?, findingAt?, hfrom]
  funext file
  rw [findingsAt, findingsAt, hat]

theorem keywordFindings_congr (h : keywordSet A = keywordSet B) :
    keywordFindings files A = keywordFindings files B := by
  simp only [keywordFindings_eq_ite, ← keywordSet_eq_empty_iff, h, findingsAt_congr h]

theorem keywordFindings_eq_noKeywords_iff :
    keywordFindings files ws = .error .noKeywords ↔ files ≠ [] ∧ ∀ w ∈ ws, IsBlank w := by
  rw [keywordFindings_eq_ite]
  by_cases hfiles : files = [] <;> simp [hfiles]

/-- **A search for keywords depends on their set and distributes over lists of them.** The answer
lists, file by file and in pre-order, what is found in each function; only a search in no files and
one with nothing but blank keywords are refused. In a function with a name just those keywords are
found, trimmed, that occur in its text, and it is listed if there is one. What two lists of keywords
find together in a function is what they find one by one. Lists with the same keywords, and so lists
that are written differently, have the same answer. -/
theorem keywordFindings_exact (files : List SourceFile) :
    (∀ ws, keywordFindings files ws =
      if files = [] then .error .noFiles
      else if ∀ w ∈ ws, IsBlank w then .error .noKeywords
      else .ok (files.flatMap (findingsAt ws))) ∧
    (∀ ws, keywordFindings files ws = .error .noKeywords ↔ files ≠ [] ∧ ∀ w ∈ ws, IsBlank w) ∧
    (∀ (ws : List String) (file : SourceFile) (tree : Node) (a : Address) (x : Finding),
      findingAt? ws file tree a = some x ↔ IsFindingAt ws file tree a x) ∧
    (∀ (A B : List String) (file : SourceFile),
      findingsAt (A ++ B) file = file.tree?.elim [] fun tree =>
        (tree.addressesWhere isFunction).filterMap fun a =>
          Finding.join (findingAt? A file tree a) (findingAt? B file tree a)) ∧
    ∀ A B, keywordSet A = keywordSet B ∨ Respelled A B →
      keywordFindings files A = keywordFindings files B := by
  refine ⟨keywordFindings_eq_ite files, fun ws => keywordFindings_eq_noKeywords_iff,
    fun ws file tree a x => findingAt?_eq_some_iff, fun A B file => ?_, fun A B h => ?_⟩
  · unfold findingsAt
    simp only [findingAt?_append]
  · exact keywordFindings_congr (h.elim id Respelled.keywordSet_eq)

/-- Two methods have the same name, one file is broken, and a keyword is given twice, once with
white space around it. -/
theorem keywordFindings_exact_respelled :
    let files : List SourceFile :=
      [.of "a.ts" "class K { go() { x; } } class L { go() { y; x; } }", .of "b.ts" "("]
    Respelled ["x", "y"] ["\t", " y\n", "x", "x"] ∧
      keywordFindings files ["\t", " y\n", "x", "x"] = .ok
        [⟨"go", ["x"], "go() { x; }", some "a.ts"⟩,
          ⟨"go", ["x", "y"], "go() { y; x; }", some "a.ts"⟩] := by
  intro files
  have hsurrounded : Respelled ["y", "x"] [" " ++ "y" ++ "\n", "x"] :=
    .surrounded (by decide) (by decide)
  have hfront : Respelled ["x", "y"] [" y\n", "x"] :=
    (Respelled.permuted (List.Perm.swap "y" "x" [])).trans hsurrounded
  have hrepeated : Respelled [" y\n", "x"] ["x", " y\n", "x"] := .repeated (by simp)
  have hrespelled : Respelled ["x", "y"] ["\t", " y\n", "x", "x"] :=
    (hfront.trans (hrepeated.trans (.permuted (List.Perm.swap " y\n" "x" ["x"])))).trans
      (.padded (by decide))
  refine ⟨hrespelled, ?_⟩
  rw [← (keywordFindings_exact files).2.2.2.2 _ _ (Or.inr hrespelled)]
  decide +kernel

end Function

end ScriptAtlas
