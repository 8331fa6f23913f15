import ScriptAtlas.Graph.Importer
import ScriptAtlas.Proofs.KeywordSets
import ScriptAtlas.Proofs.LastPart
import ScriptAtlas.Proofs.PatternText

/-! # The names of entry points

A module is an entry point if the last part of its id is one of the stems, or a stem in front of a
dot and something more, letter case aside (`Names`). The stems may also be put together to one
pattern that is searched for in the last part of the id (`patternText?`): whatever characters they
have, the pattern can be read and finds the same modules (`accepts_iff_finds`). -/

namespace ScriptAtlas

namespace Text

/-! ### Trimmed texts -/

/-- `core` is `cs` up to the blanks at both ends. -/
structure IsTrimmed (cs core : List Char) : Prop where
  surrounded : ∃ before after, cs = before ++ core ++ after ∧
    (∀ c ∈ before, isBlank c = true) ∧ ∀ c ∈ after, isBlank c = true
  head : ∀ c ∈ core.head?, isBlank c = false
  last : ∀ c ∈ core.getLast?, isBlank c = false

theorem isBlank_head?_dropWhile (cs : List Char) :
    ∀ c ∈ (cs.dropWhile isBlank).head?, isBlank c = false := by
  intro c hc
  have hne : cs.dropWhile isBlank ≠ [] := by
    intro hnil
    rw [hnil] at hc
    cases hc
  rw [List.head?_eq_some_head hne, Option.mem_some_iff] at hc
  rw [← hc]
  exact List.head_dropWhile_not isBlank hne

theorem dropWhile_isBlank_of_head? {cs : List Char} (h : ∀ c ∈ cs.head?, isBlank c = false) :
    cs.dropWhile isBlank = cs := by
  cases cs with
  | nil => rfl
  | cons c cs => rw [List.dropWhile_cons_of_neg (by simp [h c rfl])]

theorem exists_eq_trimRight_append (cs : List Char) :
    ∃ after, cs = trimRight cs ++ after ∧ ∀ c ∈ after, isBlank c = true := by
  refine ⟨(cs.reverse.takeWhile isBlank).reverse, ?_, ?_⟩
  · rw [trimRight, ← List.reverse_append, List.takeWhile_append_dropWhile, List.reverse_reverse]
  · intro c hc
    exact List.mem_takeWhile_imp (List.mem_reverse.mp hc)

theorem isTrimmed_iff {cs core : List Char} : IsTrimmed cs core ↔ trimChars cs = core := by
  constructor
  · rintro ⟨⟨before, after, rfl, hbefore, hafter⟩, hhead, hlast⟩
    rw [trimChars_surround hbefore hafter, trimChars, dropWhile_isBlank_of_head? hhead, trimRight,
      dropWhile_isBlank_of_head? (by rwa [List.head?_reverse]), List.reverse_reverse]
  · rintro rfl
    obtain ⟨after, heq, hafter⟩ := exists_eq_trimRight_append (cs.dropWhile isBlank)
    have hbefore : ∀ c ∈ cs.takeWhile isBlank, isBlank c = true :=
      fun c hc => List.mem_takeWhile_imp hc
    refine ⟨⟨cs.takeWhile isBlank, after, ?_, hbefore, hafter⟩, ?_, ?_⟩
    · rw [trimChars, List.append_assoc, ← heq, List.takeWhile_append_dropWhile]
    · intro c hc
      refine isBlank_head?_dropWhile cs c ?_
      have hcore : (trimRight (cs.dropWhile isBlank)).head? = some c := hc
      rw [heq, List.head?_append, hcore]
      rfl
    · rw [trimChars, trimRight, List.getLast?_reverse]
      exact isBlank_head?_dropWhile _

/-! ### Letter case -/

/-- Texts that agree character by character, letter case aside. -/
def FoldEqual (a b : List Char) : Prop := List.Forall₂ (fun c d => foldChar c = foldChar d) a b

theorem foldEqual_iff {a b : List Char} : FoldEqual a b ↔ foldCase a = foldCase b := by
  rw [foldCase, foldCase, ← List.forall₂_eq_eq_eq, List.forall₂_map_left_iff,
    List.forall₂_map_right_iff, FoldEqual]

theorem FoldEqual.symm {a b : List Char} (h : FoldEqual a b) : FoldEqual b a :=
  foldEqual_iff.mpr (foldEqual_iff.mp h).symm

/-- Folding stays among the characters from the letter `A` on. -/
theorem foldRuns_above :
    ∀ r ∈ foldRuns, 'A'.toNat ≤ r.first ∧ ('A'.toNat : Int) ≤ r.first + r.shift ∧
      (r.last + r.shift < 0xd800 ∨ 0xdfff < r.first + r.shift ∧ r.last + r.shift < 0x110000) := by
  decide +kernel

theorem foldChar_eq_or (c : Char) :
    foldChar c = c ∨ 'A'.toNat ≤ c.toNat ∧ 'A'.toNat ≤ (foldChar c).toNat := by
  unfold foldChar
  cases hrun : foldRuns.find? (·.contains c.toNat) with
  | none => exact .inl rfl
  | some r =>
    obtain ⟨hfirst, hlow, hvalid⟩ := foldRuns_above r (List.mem_of_find?_eq_some hrun)
    have hcontains := List.find?_some hrun
    simp only [FoldRun.contains, Bool.and_eq_true, decide_eq_true_eq] at hcontains
    have hchar : ((c.toNat : Int) + r.shift).toNat.isValidChar := by
      unfold Nat.isValidChar
      omega
    have hfold : (Char.ofNat ((c.toNat : Int) + r.shift).toNat).toNat =
        ((c.toNat : Int) + r.shift).toNat := by
      rw [Char.ofNat, dif_pos hchar]
      rfl
    right
    dsimp only
    omega

/-- The characters in front of the letters are equal to themselves only. -/
theorem foldChar_eq_iff_of_lt {c d : Char} (hc : c.toNat < 'A'.toNat) :
    foldChar d = foldChar c ↔ d = c := by
  have hself : foldChar c = c := by
    rcases foldChar_eq_or c with h | ⟨h, -⟩
    · exact h
    · omega
  rw [hself]
  constructor
  · intro h
    rcases foldChar_eq_or d with hd | ⟨-, hd⟩
    · rw [← h, hd]
    · rw [h] at hd
      omega
  · rintro rfl
    exact hself

end Text

namespace EntryPoint

/-! ### Last parts -/

/-- The part of an id behind its last slash or backslash. -/
structure IsBase (id : String) (base : List Char) : Prop where
  slash : '/' ∉ base
  backslash : '\\' ∉ base
  behind : id.toList = base ∨
    ∃ directory sep, (sep = '/' ∨ sep = '\\') ∧ id.toList = directory ++ sep :: base

variable {id : String} {base stem : List Char} {stems : List String}

theorem isBase_iff : IsBase id base ↔ baseChars id = base := by
  unfold baseChars
  constructor
  · rintro ⟨hslash, hback, hid | ⟨directory, sep, rfl | rfl, hid⟩⟩
    · rw [hid, Text.afterLast_of_not_mem hslash, Text.afterLast_of_not_mem hback]
    · rw [hid, Text.afterLast_append hslash, Text.afterLast_of_not_mem hback]
    · rw [hid, Text.afterLast_append_of_not_mem (by simpa using hslash),
        Text.afterLast_append hback]
  · rintro rfl
    -- What stands behind the last backslash stands behind all slashes too.
    rcases Text.eq_afterLast_or '\\' (Text.afterLast '/' id.toList) with hback | ⟨between, hback⟩
    · refine ⟨hback ▸ Text.not_mem_afterLast '/' _, Text.not_mem_afterLast '\\' _, ?_⟩
      rw [← hback]
      rcases Text.eq_afterLast_or '/' id.toList with hslash | ⟨directory, hslash⟩
      · exact .inl hslash
      · exact .inr ⟨directory, '/', .inl rfl, hslash⟩
    · have hslash : '/' ∉ between ++ '\\' :: Text.afterLast '\\' (Text.afterLast '/' id.toList) :=
        hback ▸ Text.not_mem_afterLast '/' _
      refine ⟨fun hmem => hslash (by simp [hmem]), Text.not_mem_afterLast '\\' _, .inr ?_⟩
      rcases Text.eq_afterLast_or '/' id.toList with hid | ⟨directory, hid⟩
      · exact ⟨between, '\\', .inr rfl, hid.trans hback⟩
      · refine ⟨directory ++ '/' :: between, '\\', .inr rfl, hid.trans ?_⟩
        rw [List.append_assoc, List.cons_append, ← hback]

/-! ### Stems -/

/-- The base is the stem, or the stem in front of a dot and something more, letter case aside. -/
def Names (stem base : List Char) : Prop :=
  Text.FoldEqual stem base ∨
    ∃ front rest, base = front ++ '.' :: rest ∧ rest ≠ [] ∧ Text.FoldEqual stem front

theorem matchesStem_iff : matchesStem base stem = true ↔ Names stem base := by
  unfold matchesStem Names Text.sameFolded
  rw [Bool.and_eq_true, beq_iff_eq, eq_comm, ← Text.foldEqual_iff]
  constructor
  · rintro ⟨hfold, hrest⟩
    cases hdrop : base.drop stem.length with
    | nil =>
      left
      rwa [List.take_of_length_le (List.drop_eq_nil_iff.mp hdrop)] at hfold
    | cons c rest =>
      right
      simp only [hdrop, Bool.and_eq_true, beq_iff_eq, Bool.not_eq_true', List.isEmpty_eq_false_iff]
        at hrest
      obtain ⟨rfl, hrest⟩ := hrest
      exact ⟨_, rest, by rw [← hdrop, List.take_append_drop], hrest, hfold⟩
  · rintro (hfold | ⟨front, rest, rfl, hrest, hfold⟩)
    · rw [hfold.length_eq, List.take_length, List.drop_length]
      exact ⟨hfold, rfl⟩
    · rw [hfold.length_eq, List.take_left, List.drop_left]
      exact ⟨hfold, by simpa using hrest⟩

/-- The stems without the blanks around them, blank ones left out. -/
def trimmedStems (stems : List String) : List (List Char) :=
  (stems.map fun s => Text.trimChars s.toList).filter (!·.isEmpty)

theorem mem_trimmedStems :
    stem ∈ trimmedStems stems ↔ ∃ s ∈ stems, Text.IsTrimmed s.toList stem ∧ stem ≠ [] := by
  simp only [trimmedStems, List.mem_filter, List.mem_map, Text.isTrimmed_iff, Bool.not_eq_true',
    List.isEmpty_eq_false_iff]
  constructor
  · rintro ⟨⟨s, hs, htrim⟩, hne⟩
    exact ⟨s, hs, htrim, hne⟩
  · rintro ⟨s, hs, htrim, hne⟩
    exact ⟨⟨s, hs, htrim⟩, hne⟩

theorem accepts_iff_exists_mem (hbase : IsBase id base) :
    accepts stems id = true ↔ ∃ stem ∈ trimmedStems stems, Names stem base := by
  have haccepts : accepts stems id = (trimmedStems stems).any (matchesStem (baseChars id)) := rfl
  rw [haccepts, isBase_iff.mp hbase]
  simp only [List.any_eq_true, matchesStem_iff]

theorem accepts_append (stems more : List String) (id : String) :
    accepts (stems ++ more) id = (accepts stems id || accepts more id) := by
  unfold accepts
  rw [List.map_append, List.filter_append, List.any_append]

/-- Bases that differ in letter case only have the same names. -/
theorem Names.congr {other : List Char} (hfold : Text.FoldEqual base other) (h : Names stem base) :
    Names stem other := by
  have hsame : Text.foldCase other = Text.foldCase base := (Text.foldEqual_iff.mp hfold).symm
  rcases h with hstem | ⟨front, rest, rfl, hrest, hstem⟩
  · left
    rw [Text.foldEqual_iff] at hstem ⊢
    rw [hstem, hsame]
  · right
    rw [Text.foldCase, Text.foldCase, List.map_append, List.map_cons,
      List.map_eq_append_iff] at hsame
    obtain ⟨front', tail, rfl, hfront, htail⟩ := hsame
    obtain ⟨dot, rest', rfl, hdot, hrest'⟩ := List.map_eq_cons_iff.mp htail
    obtain rfl : dot = '.' := (Text.foldChar_eq_iff_of_lt (by decide)).mp hdot
    refine ⟨front', rest', rfl, ?_, ?_⟩
    · rintro rfl
      exact hrest (List.map_eq_nil_iff.mp hrest'.symm)
    · rw [Text.foldEqual_iff] at hstem ⊢
      exact hstem.trans hfront.symm

/-! ### The pattern of the stems -/

def patternBody (stems : List (List Char)) : List Char :=
  "^(?:".toList ++
    (List.intercalate ['|'] (stems.map Pattern.escape) ++ ")(?:\\.[^/]+)?$".toList)

/-- The text of the pattern for the last parts of entry points, if any stems are left. -/
def patternText? (stems : List String) : Option (List Char) :=
  if (trimmedStems stems).isEmpty then none
  else some ("(?i)".toList ++ patternBody (trimmedStems stems))

def stemsPattern (stems : List (List Char)) : Pattern :=
  .anyOf [.sequence [.start, .anyOf (stems.map fun s => .sequence (s.map .literal)),
    .optional (.anyOf [.sequence [.literal '.', .oneOrMore (.noneOf '/')]]), .finish]]

theorem parse?_patternBody (stem : List Char) (stems : List (List Char)) :
    Pattern.parse? (patternBody (stem :: stems)) = some (stemsPattern (stem :: stems)) := by
  have hopen (cs : List Char) : Pattern.tokens? ("^(?:".toList ++ cs) =
      (Pattern.tokens? cs).map ([.piece .start, .group] ++ ·) := by
    have htwo : Pattern.tokens? ("^(?:".toList ++ cs) =
        ((Pattern.tokens? cs).map (.group :: ·)).map (.piece .start :: ·) := rfl
    rw [htwo, Option.map_map]
    rfl
  have hclose : Pattern.tokens? ")(?:\\.[^/]+)?$".toList =
      some [.close, .group, .piece (.literal '.'), .piece (.noneOf '/'), .plus, .close, .question,
        .piece .finish] := rfl
  obtain ⟨g, hg, hpattern⟩ := Pattern.foldlM_alternatives [] [⟨[], [.start]⟩] stem stems
  have hstart : List.foldlM Pattern.step ({}, []) [.piece .start, .group] =
      some ({}, [⟨[], [.start]⟩]) := rfl
  rw [patternBody, Pattern.parse?, hopen, Pattern.tokens?_alternatives_append, hclose,
    Option.map_some, Option.map_some, Option.bind_some]
  rw [Pattern.ofTokens?, List.foldlM_append, hstart, Option.bind_eq_bind, Option.bind_some,
    List.foldlM_append, hg, Option.bind_eq_bind, Option.bind_some]
  rw [stemsPattern, ← List.nil_append (List.map _ _), ← hpattern]
  rfl

theorem names_iff_exists_append {base : List Char} (hbase : '/' ∉ base) :
    Names stem base ↔ ∃ u v, base = u ++ v ∧ Text.FoldEqual stem u ∧
      (v = [] ∨ ∃ rest, v = '.' :: rest ∧ rest ≠ [] ∧
        ∀ c ∈ rest, Text.foldChar c ≠ Text.foldChar '/') := by
  have hother {c : Char} (hc : c ∈ base) : Text.foldChar c ≠ Text.foldChar '/' := by
    rw [ne_eq, Text.foldChar_eq_iff_of_lt (by decide)]
    rintro rfl
    exact hbase hc
  constructor
  · rintro (hfold | ⟨front, rest, rfl, hrest, hfold⟩)
    · exact ⟨base, [], by simp, hfold, .inl rfl⟩
    · refine ⟨front, '.' :: rest, rfl, hfold, .inr ⟨rest, rfl, hrest, fun c hc => ?_⟩⟩
      exact hother (by simp [hc])
  · rintro ⟨u, v, rfl, hfold, rfl | ⟨rest, rfl, hrest, -⟩⟩
    · exact .inl (by simpa using hfold)
    · exact .inr ⟨u, rest, rfl, hrest, hfold⟩

theorem takes_suffix_iff {before part : List Char} :
    Pattern.Takes Text.foldChar
        (.anyOf [.sequence [.literal '.', .oneOrMore (.noneOf '/')]]) before part [] ↔
      ∃ rest, part = '.' :: rest ∧ rest ≠ [] ∧
        ∀ c ∈ rest, Text.foldChar c ≠ Text.foldChar '/' := by
  simp only [Pattern.takes_anyOf_iff, List.mem_singleton, exists_eq_left, Pattern.takes_cons_iff,
    Pattern.takes_nil_iff, Pattern.takes_literal_iff, Pattern.takes_oneOrMore_noneOf_iff,
    Text.foldChar_eq_iff_of_lt (c := '.') (by decide)]
  constructor
  · rintro ⟨_, _, rfl, ⟨_, rfl, rfl⟩, rest, _, rfl, ⟨hrest, hall⟩, rfl⟩
    exact ⟨rest, by simp, hrest, hall⟩
  · rintro ⟨rest, rfl, hrest, hall⟩
    exact ⟨['.'], rest, rfl, ⟨'.', rfl, rfl⟩, rest, [], by simp, ⟨hrest, hall⟩, rfl⟩

theorem finds_stemsPattern_iff {stems : List (List Char)} (hbase : '/' ∉ base) :
    Pattern.Query.Finds ⟨Text.foldChar, stemsPattern stems⟩ base ↔
      ∃ stem ∈ stems, Names stem base := by
  unfold stemsPattern
  simp only [Pattern.finds_anchored_iff, List.mem_map, exists_exists_and_eq_and,
    Pattern.takes_literals_iff, takes_suffix_iff, names_iff_exists_append hbase, Text.FoldEqual]

theorem read?_patternText {text : List Char} (h : patternText? stems = some text) :
    Pattern.Query.read? text = some ⟨Text.foldChar, stemsPattern (trimmedStems stems)⟩ := by
  unfold patternText? at h
  cases hstems : trimmedStems stems with
  | nil => simp [hstems] at h
  | cons stem rest =>
    rw [hstems, if_neg (by simp), Option.some.injEq] at h
    have hflag : Pattern.Query.read? text =
        (Pattern.parse? (patternBody (stem :: rest))).map (⟨Text.foldChar, ·⟩) := by
      rw [← h]
      rfl
    rw [hflag, parse?_patternBody, Option.map_some]

theorem accepts_iff_finds (hbase : IsBase id base) :
    accepts stems id = true ↔
      ∃ text q, patternText? stems = some text ∧ Pattern.Query.read? text = some q ∧
        q.Finds base := by
  rw [accepts_iff_exists_mem hbase, ← finds_stemsPattern_iff hbase.slash]
  constructor
  · intro hfinds
    obtain ⟨stem, hstem, -⟩ := (finds_stemsPattern_iff hbase.slash).mp hfinds
    have htext : (patternText? stems).isSome := by
      simp [patternText?, List.ne_nil_of_mem hstem]
    obtain ⟨text, htext⟩ := Option.isSome_iff_exists.mp htext
    exact ⟨text, _, htext, read?_patternText htext, hfinds⟩
  · rintro ⟨text, q, htext, hq, hfinds⟩
    rw [read?_patternText htext, Option.some.injEq] at hq
    rwa [hq]

/-- The last part of an id tells whether it is an entry point: it is compared with the stems
character by character, and the pattern that the stems are put together to says the same. Neither
the directory nor letter case counts, and lists of stems can be tried one after the other. -/
theorem entryPoints_named_literally (stems : List String) :
    (∀ id, ∃! base, IsBase id base) ∧
      (∀ id base, IsBase id base →
        (accepts stems id = true ↔
          ∃ s ∈ stems, ∃ stem, Text.IsTrimmed s.toList stem ∧ stem ≠ [] ∧ Names stem base) ∧
        (accepts stems id = true ↔
          ∃ text q, patternText? stems = some text ∧ Pattern.Query.read? text = some q ∧
            q.Finds base)) ∧
      (∀ text, patternText? stems = some text → (Pattern.Query.read? text).isSome = true) ∧
      (∀ id id' base base', IsBase id base → IsBase id' base' → Text.FoldEqual base base' →
        accepts stems id = accepts stems id') ∧
      ∀ more id, accepts (stems ++ more) id = (accepts stems id || accepts more id) := by
  refine ⟨fun id => ?_, fun id base hbase => ⟨?_, accepts_iff_finds hbase⟩, fun text htext => ?_,
    fun id id' base base' hbase hbase' hfold => ?_, accepts_append stems⟩
  · exact ⟨baseChars id, isBase_iff.mpr rfl, fun base hbase => (isBase_iff.mp hbase).symm⟩
  · rw [accepts_iff_exists_mem hbase]
    simp only [mem_trimmedStems]
    constructor
    · rintro ⟨stem, ⟨s, hs, htrim, hne⟩, hnames⟩
      exact ⟨s, hs, stem, htrim, hne, hnames⟩
    · rintro ⟨s, hs, stem, htrim, hne, hnames⟩
      exact ⟨stem, ⟨s, hs, htrim, hne⟩, hnames⟩
  · rw [read?_patternText htext]
    rfl
  · rw [Bool.eq_iff_iff, accepts_iff_exists_mem hbase, accepts_iff_exists_mem hbase']
    constructor
    · rintro ⟨stem, hstem, hnames⟩
      exact ⟨stem, hstem, hnames.congr hfold⟩
    · rintro ⟨stem, hstem, hnames⟩
      exact ⟨stem, hstem, hnames.congr hfold.symm⟩

/-- A stem with dots, bars and brackets, in capitals behind a backslash, and a blank stem. -/
theorem entryPoints_named_literally_metaChars :
    IsBase "src/lib\\A.B|(C.test.ts" "A.B|(C.test.ts".toList ∧
      accepts ["main", " a.b|(c ", ""] "src/lib\\A.B|(C.test.ts" = true ∧
      patternText? ["main", " a.b|(c ", ""] =
        some "(?i)^(?:main|a\\.b\\|\\(c)(?:\\.[^/]+)?$".toList ∧
      (∃ q, Pattern.Query.read? "(?i)^(?:main|a\\.b\\|\\(c)(?:\\.[^/]+)?$".toList = some q ∧
        q.Finds "A.B|(C.test.ts".toList) ∧
      accepts ["main", " a.b|(c ", ""] "MAIN." = false := by
  have hbase : IsBase "src/lib\\A.B|(C.test.ts" "A.B|(C.test.ts".toList :=
    ⟨by decide, by decide, .inr ⟨"src/lib".toList, '\\', .inr rfl, rfl⟩⟩
  have haccepts : accepts ["main", " a.b|(c ", ""] "src/lib\\A.B|(C.test.ts" = true := by decide
  have htext : patternText? ["main", " a.b|(c ", ""] =
      some "(?i)^(?:main|a\\.b\\|\\(c)(?:\\.[^/]+)?$".toList := by decide
  obtain ⟨-, hmatch, -⟩ := entryPoints_named_literally ["main", " a.b|(c ", ""]
  obtain ⟨text, q, heq, hread, hfinds⟩ := (hmatch _ _ hbase).2.mp haccepts
  rw [htext, Option.some.injEq] at heq
  exact ⟨hbase, haccepts, htext, ⟨q, heq ▸ hread, hfinds⟩, by decide⟩

end EntryPoint

end ScriptAtlas
