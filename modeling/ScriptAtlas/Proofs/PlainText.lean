import Mathlib.Data.List.Basic
import ScriptAtlas.CommandLine.Run
import ScriptAtlas.Proofs.CanonicalPath

/-! # Colours change nothing but colour

A listing is text in pieces, and colours are escape sequences around some of them. `unstyled` takes
such sequences out of a text. Of painted pieces it leaves the plain text, unless a piece itself
holds the escape character (`unstyled_text`). The pieces of an answer hold it only if a string of
the answer does, however the strings are cut, joined and padded on the way (`Answer.clean_listing`),
so both ways to print an answer say the same. -/

namespace ScriptAtlas.Output

open ScriptAtlas.Path

/-! ### Taking out escape sequences -/

/-- May `c` stand between the opening bracket and the end of an escape sequence? -/
def isParameter (c : Char) : Bool := c.isDigit || c = ';'

/-- What follows the escape sequence in front, if there is one. -/
def behindSequence? : List Char → Option (List Char)
  | '\x1b' :: '[' :: cs =>
    match cs.dropWhile isParameter with
    | 'm' :: rest => some rest
    | _ => none
  | _ => none

theorem length_lt_of_behindSequence? {cs rest : List Char} (h : behindSequence? cs = some rest) :
    rest.length < cs.length := by
  unfold behindSequence? at h
  split at h
  · next ds =>
    split at h
    · next heq =>
      have hle := (List.dropWhile_suffix (l := ds) isParameter).length_le
      rw [heq, List.length_cons] at hle
      cases h
      simp only [List.length_cons]
      omega
    · cases h
  · cases h

/-- The characters without the escape sequences among them. -/
def unstyled (cs : List Char) : List Char :=
  match h : behindSequence? cs with
  | some rest =>
    have := length_lt_of_behindSequence? h
    unstyled rest
  | none =>
    match cs with
    | [] => []
    | c :: cs => c :: unstyled cs
termination_by cs.length

theorem unstyled_of_behindSequence? {cs rest : List Char} (h : behindSequence? cs = some rest) :
    unstyled cs = unstyled rest := by
  rw [unstyled]
  split
  · next heq => rw [h] at heq; cases heq; rfl
  · next heq => rw [h] at heq; cases heq

theorem unstyled_nil : unstyled [] = [] := by
  rw [unstyled]; rfl

theorem unstyled_cons {c : Char} (h : c ≠ '\x1b') (cs : List Char) :
    unstyled (c :: cs) = c :: unstyled cs := by
  have hnone : behindSequence? (c :: cs) = none := by
    unfold behindSequence?
    split
    · next heq => exact absurd (List.cons.inj heq).1 h
    · rfl
  rw [unstyled]
  split
  · next heq => rw [hnone] at heq; cases heq
  · rfl

theorem unstyled_append {cs : List Char} (h : '\x1b' ∉ cs) (ds : List Char) :
    unstyled (cs ++ ds) = cs ++ unstyled ds := by
  induction cs with
  | nil => rfl
  | cons c cs ih =>
    rw [List.mem_cons, not_or] at h
    rw [List.cons_append, unstyled_cons (Ne.symm h.1), ih h.2, List.cons_append]

theorem unstyled_sequence {parameters : List Char} (h : ∀ c ∈ parameters, isParameter c = true)
    (cs : List Char) :
    unstyled ('\x1b' :: '[' :: (parameters ++ 'm' :: cs)) = unstyled cs := by
  apply unstyled_of_behindSequence?
  have hdrop : (parameters ++ 'm' :: cs).dropWhile isParameter = 'm' :: cs := by
    rw [List.dropWhile_append_of_pos h]
    exact List.dropWhile_cons_of_neg (by decide)
  simp only [behindSequence?, hdrop]

/-! ### Painted pieces -/

theorem all_isParameter_of_mem_codes {s : Style} {code : String} (h : code ∈ s.codes) :
    code.toList.all isParameter = true := by
  rw [Style.codes, List.mem_append, List.mem_append] at h
  rcases h with (h | h) | h
  · split at h
    · obtain rfl := List.mem_singleton.mp h
      decide
    · cases h
  · split at h
    · obtain rfl := List.mem_singleton.mp h
      decide
    · cases h
  · rw [Option.mem_toList, Option.map_eq_some_iff] at h
    obtain ⟨colour, -, rfl⟩ := h
    cases colour <;> decide

theorem unstyled_opening (s : Style) (cs : List Char) :
    unstyled (opening s.codes ++ cs) = unstyled cs := by
  have hparameters : ∀ c ∈ (";".intercalate s.codes).toList, isParameter c = true := by
    intro c hc
    rw [String.toList_intercalate] at hc
    rcases mem_intercalate hc with hc | ⟨code, hcode, hc⟩
    · obtain rfl : c = ';' := by simpa using hc
      rfl
    · obtain ⟨code, hmem, rfl⟩ := List.mem_map.mp hcode
      exact List.all_eq_true.mp (all_isParameter_of_mem_codes hmem) c hc
  rw [opening, List.append_assoc]
  exact unstyled_sequence hparameters cs

theorem unstyled_ending (cs : List Char) : unstyled (ending ++ cs) = unstyled cs := by
  have hparameters : ∀ c ∈ ['0'], isParameter c = true := by simp [isParameter]
  exact unstyled_sequence hparameters cs

theorem reopened_of_not_mem {style cs : List Char} (h : '\x1b' ∉ cs) :
    reopened style cs = cs := by
  induction cs with
  | nil => rfl
  | cons c cs ih =>
    rw [List.mem_cons, not_or] at h
    rw [reopened, ih h.2]
    intro ds heq
    exact absurd heq.symm h.1

theorem unstyled_painted {p : Piece} (h : '\x1b' ∉ p.text.toList) (cs : List Char) :
    unstyled (p.painted ++ cs) = p.text.toList ++ unstyled cs := by
  unfold Piece.painted
  split
  · exact unstyled_append h cs
  · dsimp only
    rw [reopened_of_not_mem h, List.append_assoc, List.append_assoc, unstyled_opening,
      unstyled_append h, unstyled_ending]

/-- A text without the escape character. -/
def Clean (s : String) : Prop := '\x1b' ∉ s.toList
deriving Decidable

/-- No piece holds the escape character. -/
def CleanPieces (pieces : Styled) : Prop := ∀ p ∈ pieces, Clean p.text

theorem unstyled_flatMap_painted {pieces : Styled} (h : CleanPieces pieces) :
    unstyled (pieces.flatMap Piece.painted) = pieces.flatMap fun p => p.text.toList := by
  induction pieces with
  | nil => exact unstyled_nil
  | cons p pieces ih =>
    obtain ⟨hp, hpieces⟩ := List.forall_mem_cons.mp h
    rw [List.flatMap_cons, List.flatMap_cons, unstyled_painted hp, ih hpieces]

/-- **Painting adds escape sequences and nothing else.** -/
theorem unstyled_text {pieces : Styled} (h : CleanPieces pieces) :
    String.ofList (unstyled (pieces.text true).toList) = pieces.text false := by
  simp only [Styled.text, if_true, Bool.false_eq_true, if_false, String.toList_ofList]
  rw [unstyled_flatMap_painted h]

theorem clean_text {pieces : Styled} (h : CleanPieces pieces) : Clean (pieces.text false) := by
  simpa [Clean, CleanPieces, Styled.text] using h

/-! ### Texts and pieces without the escape character -/

@[simp]
theorem clean_append {s t : String} : Clean (s ++ t) ↔ Clean s ∧ Clean t := by
  simp [Clean, not_or]

theorem clean_intercalate {sep : String} {parts : List String} (hsep : Clean sep)
    (h : ∀ s ∈ parts, Clean s) : Clean (sep.intercalate parts) := by
  intro hmem
  rw [String.toList_intercalate] at hmem
  rcases mem_intercalate hmem with hmem | ⟨part, hpart, hmem⟩
  · exact hsep hmem
  · obtain ⟨s, hs, rfl⟩ := List.mem_map.mp hpart
    exact h s hs hmem

@[simp]
theorem clean_toString {s : String} : Clean (toString s) ↔ Clean s := Iff.rfl

@[simp]
theorem clean_repr (n : Nat) : Clean n.repr := by
  intro hmem
  rw [Nat.repr, String.toList_ofList] at hmem
  have hdigit := Nat.isDigit_of_mem_toDigits (by decide) (by decide) hmem
  exact absurd hdigit (by decide)

theorem clean_replicate {c : Char} (hc : '\x1b' ≠ c) (n : Nat) :
    Clean (String.ofList (List.replicate n c)) := by
  simp [Clean, hc]

@[simp]
theorem cleanPieces_nil : CleanPieces [] := fun _ h => absurd h List.not_mem_nil

@[simp]
theorem cleanPieces_append {ps qs : Styled} :
    CleanPieces (ps ++ qs) ↔ CleanPieces ps ∧ CleanPieces qs := List.forall_mem_append

section
variable {s : String}

@[simp]
theorem cleanPieces_plain : CleanPieces (.plain s) ↔ Clean s := List.forall_mem_singleton

@[simp]
theorem cleanPieces_bold : CleanPieces (.bold s) ↔ Clean s := List.forall_mem_singleton

@[simp]
theorem cleanPieces_dimmed : CleanPieces (.dimmed s) ↔ Clean s := List.forall_mem_singleton

@[simp]
theorem cleanPieces_coloured {c : Colour} : CleanPieces (.coloured c s) ↔ Clean s :=
  List.forall_mem_singleton

@[simp]
theorem cleanPieces_strong {c : Colour} : CleanPieces (.strong c s) ↔ Clean s :=
  List.forall_mem_singleton

end

@[simp]
theorem cleanPieces_line {ps : Styled} : CleanPieces (.line ps) ↔ CleanPieces ps := by
  have hend : Clean "\n" := by decide
  simp [Styled.line, hend]

@[simp]
theorem cleanPieces_flatMap {α : Type} {as : List α} {f : α → Styled} :
    CleanPieces (as.flatMap f) ↔ ∀ a ∈ as, CleanPieces (f a) := by
  simp only [CleanPieces, List.mem_flatMap]
  exact ⟨fun h a ha p hp => h p ⟨a, ha, hp⟩, fun h p ⟨a, ha, hp⟩ => h a ha p hp⟩

/-! ### Listings -/

theorem dropReturn_subset (cs : List Char) : Text.dropReturn cs ⊆ cs := by
  unfold Text.dropReturn
  split
  · exact List.dropLast_subset cs
  · exact List.Subset.refl cs

theorem subset_of_mem_lines {cs l : List Char} (h : l ∈ Text.lines cs) : l ⊆ cs := by
  have hparts : ∀ part ∈ Text.splitAt '\n' cs, part ⊆ cs := fun part hpart _ hc =>
    (mem_splitAt hpart).2 _ hc
  have hended : ∀ l ∈ (Text.splitAt '\n' cs).dropLast.map Text.dropReturn, l ⊆ cs := by
    intro l hl
    obtain ⟨part, hpart, rfl⟩ := List.mem_map.mp hl
    exact List.Subset.trans (dropReturn_subset part) (hparts part (List.dropLast_subset _ hpart))
  unfold Text.lines at h
  dsimp only at h
  split at h
  · exact hended l h
  · exact hended l h
  · next last _ hlast =>
    rcases List.mem_append.mp h with h | h
    · exact hended l h
    · obtain rfl := List.mem_singleton.mp h
      exact hparts l (List.mem_of_getLast? hlast)

theorem clean_snippet {content : String} (h : Clean content) : CleanPieces (snippet content) := by
  have hline : ∀ l ∈ (Text.lines content.toList).take shownLines, Clean (String.ofList l) := by
    intro l hl hc
    rw [String.toList_ofList] at hc
    exact h (subset_of_mem_lines (List.mem_of_mem_take hl) hc)
  unfold snippet
  dsimp only
  split
  · simpa +decide using hline
  · simpa +decide using hline

theorem clean_place {file : String} (h : Clean file) : CleanPieces (place file) := by
  simpa +decide [place] using h

theorem clean_located {name : String} {file : Option String} (hname : Clean name)
    (hfile : ∀ f ∈ file, Clean f) : CleanPieces (located name file) := by
  cases file with
  | none => simpa [located] using hname
  | some f => simpa [located, hname] using clean_place (hfile f rfl)

/-- A function with its place and its text, as dependencies and callers are listed. -/
theorem clean_function {name content : String} {file : Option String} (hname : Clean name)
    (hfile : ∀ f ∈ file, Clean f) (hcontent : Clean content) :
    CleanPieces (.line (.plain "  " ++ located name file) ++ snippet content) := by
  simp +decide [clean_located hname hfile, clean_snippet hcontent]

theorem clean_padded (width n : Nat) : Clean (padded width n) := by
  simpa [padded] using clean_replicate (by decide) _

theorem clean_score (width n : Nat) : CleanPieces (score width n) := by
  have h := clean_padded width n
  unfold score
  dsimp only
  split
  · simpa using h
  · split <;> simpa using h

theorem clean_describe {cycle : List String} (h : ∀ id ∈ cycle, Clean id) :
    Clean (Cycle.describe cycle) := by
  have harrows : ∀ {ids : List String}, ids ⊆ cycle → Clean (Cycle.arrows ids) := fun hids =>
    clean_intercalate (by decide) fun id hid => h id (hids hid)
  unfold Cycle.describe
  dsimp only
  split
  · simp +decide [harrows (List.take_subset _ _), harrows (List.drop_subset _ _)]
  · exact harrows (List.Subset.refl cycle)

theorem clean_cycleLines {n : Nat} {cycles : List (List String)}
    (h : ∀ cycle ∈ cycles, ∀ id ∈ cycle, Clean id) : CleanPieces (cycleLines n cycles) := by
  induction cycles generalizing n with
  | nil => exact cleanPieces_nil
  | cons cycle cycles ih =>
    obtain ⟨hcycle, hcycles⟩ := List.forall_mem_cons.mp h
    simp +decide [cycleLines, clean_describe hcycle, ih hcycles]

end ScriptAtlas.Output

namespace ScriptAtlas

/-! ### The strings of an answer -/

def Function.Dependencies.strings (d : Function.Dependencies) : List String :=
  d.target.toList ++ d.targetFile.toList ++
    d.dependencies.flatMap fun x => [x.name, x.content, x.file]

def Function.Callers.strings (c : Function.Callers) : List String :=
  c.target :: c.callers.flatMap fun x => x.name :: x.content :: x.file.toList

def Function.Finding.strings (f : Function.Finding) : List String :=
  f.functionName :: f.content :: f.file.toList ++ f.foundKeywords

def Function.Ranked.strings (r : Function.Ranked) : List String := [r.name, r.file]

def GraphReport.strings (r : GraphReport) : List String :=
  r.nodes ++ r.edges.flatMap (fun e => [e.source, e.target]) ++ r.cycles.flatten ++
    r.hubs.map (·.id) ++ r.orphans

/-- All strings that an answer holds. -/
def CommandLine.Answer.strings : CommandLine.Answer → List String
  | .dependencies target d => target :: d.strings
  | .callers c => c.strings
  | .findings fs => fs.flatMap (·.strings)
  | .graph r => r.strings
  | .complexity file _ => [file]
  | .hotspots fs => fs.flatMap (·.strings)

namespace Output

theorem clean_dependencies {target : String} {d : Function.Dependencies} (htarget : Clean target)
    (h : ∀ s ∈ d.strings, Clean s) : CleanPieces (dependencies target d) := by
  simp only [Function.Dependencies.strings, List.forall_mem_append, Option.mem_toList] at h
  obtain ⟨⟨hsource, hfile⟩, hcalled⟩ := h
  have hplace : CleanPieces (place (d.targetFile.getD "?")) := by
    apply clean_place
    cases hf : d.targetFile with
    | none => decide
    | some f => exact hfile f hf
  have hlist : ∀ x ∈ d.dependencies,
      CleanPieces (.line (.plain "  " ++ located x.name (some x.file)) ++ snippet x.content) := by
    intro x hx
    have hstrings : ∀ s ∈ [x.name, x.content, x.file], Clean s := fun s hs =>
      hcalled s (List.mem_flatMap.mpr ⟨x, hx, hs⟩)
    simp only [List.forall_mem_cons] at hstrings
    obtain ⟨hname, hcontent, hfile, -⟩ := hstrings
    exact clean_function hname (by simpa using hfile) hcontent
  unfold dependencies
  split
  · simp +decide [htarget]
  · next source heq =>
    have hhead : CleanPieces (.line (.bold target ++ place (d.targetFile.getD "?")) ++
        snippet source) := by
      simp [htarget, hplace, clean_snippet (hsource source heq)]
    rw [cleanPieces_append]
    refine ⟨hhead, ?_⟩
    split
    · simp +decide
    · rw [cleanPieces_append, cleanPieces_flatMap]
      exact ⟨by simp +decide, hlist⟩

theorem clean_callers {c : Function.Callers} (h : ∀ s ∈ c.strings, Clean s) :
    CleanPieces (callers c) := by
  obtain ⟨htarget, hcallers⟩ := List.forall_mem_cons.mp h
  have hlist : ∀ x ∈ c.callers,
      CleanPieces (.line (.plain "  " ++ located x.name x.file) ++ snippet x.content) := by
    intro x hx
    have hstrings : ∀ s ∈ x.name :: x.content :: x.file.toList, Clean s := fun s hs =>
      hcallers s (List.mem_flatMap.mpr ⟨x, hx, hs⟩)
    simp only [List.forall_mem_cons, Option.mem_toList] at hstrings
    obtain ⟨hname, hcontent, hfile⟩ := hstrings
    exact clean_function hname hfile hcontent
  unfold callers
  split
  · simp +decide [htarget]
  · rw [cleanPieces_append, cleanPieces_flatMap]
    exact ⟨by simp +decide [htarget], hlist⟩

theorem clean_findings {fs : List Function.Finding}
    (h : ∀ s ∈ fs.flatMap (·.strings), Clean s) : CleanPieces (findings fs) := by
  unfold findings
  split
  · simp +decide
  · rw [cleanPieces_append, cleanPieces_flatMap]
    refine ⟨by simp +decide, fun f hf => ?_⟩
    have hstrings : ∀ s ∈ f.strings, Clean s := fun s hs =>
      h s (List.mem_flatMap.mpr ⟨f, hf, hs⟩)
    simp only [Function.Finding.strings, List.cons_append, List.forall_mem_cons,
      List.forall_mem_append, Option.mem_toList] at hstrings
    obtain ⟨hname, -, hfile, hkeywords⟩ := hstrings
    simp +decide [clean_located hname hfile, clean_intercalate _ hkeywords]

theorem clean_graph {r : GraphReport} (h : ∀ s ∈ r.strings, Clean s) :
    CleanPieces (graph r) := by
  simp only [GraphReport.strings, List.forall_mem_append, List.forall_mem_map] at h
  obtain ⟨⟨⟨-, hcycles⟩, hhubs⟩, horphans⟩ := h
  have hlines : CleanPieces (cycleLines 1 r.cycles) := clean_cycleLines fun cycle hcycle id hid =>
    hcycles id (List.mem_flatten.mpr ⟨cycle, hcycle, hid⟩)
  unfold graph
  simp only [cleanPieces_append]
  refine ⟨⟨⟨by simp +decide, ?_⟩, ?_⟩, ?_⟩
  · split
    · simp +decide
    · simp +decide [hlines]
  · split
    · exact cleanPieces_nil
    · simpa +decide using hhubs
  · split
    · exact cleanPieces_nil
    · simpa +decide using horphans

theorem clean_hotspots {fs : List Function.Ranked}
    (h : ∀ s ∈ fs.flatMap (·.strings), Clean s) : CleanPieces (hotspots fs) := by
  unfold hotspots
  split
  · simp +decide
  · rw [cleanPieces_flatMap]
    intro f hf
    have hstrings : ∀ s ∈ [f.name, f.file], Clean s := fun s hs =>
      h s (List.mem_flatMap.mpr ⟨f, hf, hs⟩)
    simp only [List.forall_mem_cons] at hstrings
    obtain ⟨hname, hfile, -⟩ := hstrings
    have hlocated : CleanPieces (located f.name (some f.file)) :=
      clean_located hname (by simpa using hfile)
    simp +decide [clean_score, hlocated]

end Output

open Output

theorem CommandLine.Answer.clean_listing {a : Answer} (h : ∀ s ∈ a.strings, Clean s) :
    CleanPieces a.listing := by
  cases a with
  | dependencies target d =>
    obtain ⟨htarget, hd⟩ := List.forall_mem_cons.mp h
    exact clean_dependencies htarget hd
  | callers c => exact clean_callers h
  | findings fs => exact clean_findings h
  | graph r => exact clean_graph h
  | complexity file n => simp +decide [Answer.listing]
  | hotspots fs => exact clean_hotspots h

/-- **Colours change nothing but colour.** If no string of an answer holds the escape character,
then taking the escape sequences out of its listing with colours gives its listing without colours,
and in that one there are none. -/
theorem colours_add_sequences_only (a : CommandLine.Answer)
    (h : ∀ s ∈ a.strings, '\x1b' ∉ s.toList) :
    String.ofList (unstyled (a.listing.text true).toList) = a.listing.text false ∧
      '\x1b' ∉ (a.listing.text false).toList := by
  have hclean : CleanPieces a.listing := CommandLine.Answer.clean_listing h
  exact ⟨unstyled_text hclean, clean_text hclean⟩

/-- A function of thirteen lines without a file, and one that it calls. -/
def longDependencies : CommandLine.Answer :=
  .dependencies "f" ⟨some "1\n2\n3\n4\n5\n6\n7\n8\n9\r\n10\n11\n12\ng();", none,
    [⟨"g", "function g() \x7b\x7d", "[0m/b.ts"⟩]⟩

theorem colours_add_sequences_only_longDependencies :
    let a := longDependencies
    (∀ s ∈ a.strings, '\x1b' ∉ s.toList) ∧ a.listing.text true ≠ a.listing.text false ∧
      String.ofList (unstyled (a.listing.text true).toList) = a.listing.text false := by
  have hstrings : ∀ s ∈ longDependencies.strings, '\x1b' ∉ s.toList := by decide +kernel
  exact ⟨hstrings, by decide +kernel, (colours_add_sequences_only longDependencies hstrings).1⟩

end ScriptAtlas
