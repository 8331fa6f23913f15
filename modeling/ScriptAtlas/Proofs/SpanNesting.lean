import Mathlib.Data.List.Infix
import ScriptAtlas.Proofs.KeywordSets
import ScriptAtlas.Proofs.NestedComplexity

/-! # Functions inside functions, by their text

The span shown for a function is its own or that of the member it is the value of, so it may be
wider than the function. In a tree whose spans are nested (`Node.IsOver`) it still lies within what
is shown for every function around it: the member stands inside that function as well
(`Encloses.shownSpan_within`). So the text shown for a function occurs in the text shown for each
function around it (`slice_isInfix`), and what a search for keywords finds in the one it finds in
the other. -/

namespace ScriptAtlas

open Syntax

/-! ### Bytes -/

namespace Syntax

theorem foldl_utf8Size (cs : List Char) (n : Nat) :
    cs.foldl (fun n c => n + c.utf8Size) n = n + byteLength cs := by
  unfold byteLength
  induction cs generalizing n with
  | nil => rfl
  | cons c cs ih =>
    rw [List.foldl_cons, List.foldl_cons, ih, ih (0 + _)]
    omega

@[simp] theorem byteLength_nil : byteLength [] = 0 := rfl

@[simp] theorem byteLength_cons (c : Char) (cs : List Char) :
    byteLength (c :: cs) = c.utf8Size + byteLength cs := by
  rw [byteLength, List.foldl_cons, foldl_utf8Size, Nat.zero_add]

@[simp] theorem byteLength_append (xs ys : List Char) :
    byteLength (xs ++ ys) = byteLength xs + byteLength ys := by
  rw [byteLength, List.foldl_append, foldl_utf8Size]
  rfl

theorem byteLength_eq_zero_iff {cs : List Char} : byteLength cs = 0 ↔ cs = [] := by
  cases cs with
  | nil => simp
  | cons c cs =>
    have hc : 0 < c.utf8Size := c.utf8Size_pos
    simp only [byteLength_cons, reduceCtorEq, iff_false]
    omega

end Syntax

/-! ### Cuts of a text -/

namespace Text

/-- Does the byte offset `n` fall between two characters of the text, or on one of its ends? -/
def IsCut (cs : List Char) (n : Nat) : Prop := ∃ before, before <+: cs ∧ byteLength before = n

theorem dropBytes_utf8Size_add (c : Char) (n : Nat) (cs : List Char) :
    dropBytes (c.utf8Size + n) (c :: cs) = dropBytes n cs := by
  obtain ⟨k, hk⟩ := Nat.exists_eq_add_one.mpr (Nat.add_pos_left c.utf8Size_pos n)
  rw [hk, dropBytes, if_pos (by omega), ← hk, Nat.add_sub_cancel_left]

theorem takeBytes_utf8Size_add (c : Char) (n : Nat) (cs : List Char) :
    takeBytes (c.utf8Size + n) (c :: cs) = (takeBytes n cs).map (c :: ·) := by
  obtain ⟨k, hk⟩ := Nat.exists_eq_add_one.mpr (Nat.add_pos_left c.utf8Size_pos n)
  rw [hk, takeBytes, if_pos (by omega), ← hk, Nat.add_sub_cancel_left]

theorem dropBytes_append (xs ys : List Char) : dropBytes (byteLength xs) (xs ++ ys) = some ys := by
  induction xs with
  | nil => simp [dropBytes]
  | cons c xs ih => rw [byteLength_cons, List.cons_append, dropBytes_utf8Size_add, ih]

theorem takeBytes_append (xs ys : List Char) : takeBytes (byteLength xs) (xs ++ ys) = some xs := by
  induction xs with
  | nil => simp [takeBytes]
  | cons c xs ih =>
    rw [byteLength_cons, List.cons_append, takeBytes_utf8Size_add, ih, Option.map_some]

theorem eq_append_of_dropBytes {n : Nat} {cs rest : List Char} (h : dropBytes n cs = some rest) :
    ∃ before, cs = before ++ rest ∧ byteLength before = n := by
  fun_induction dropBytes n cs with
  | case1 cs => exact ⟨[], by simpa using h, rfl⟩
  | case2 => cases h
  | case3 n c cs hc ih =>
    obtain ⟨before, rfl, hbefore⟩ := ih h
    exact ⟨c :: before, rfl, by rw [byteLength_cons]; omega⟩
  | case4 => cases h

theorem isCut_iff_isSome_dropBytes {cs : List Char} {n : Nat} :
    IsCut cs n ↔ (dropBytes n cs).isSome := by
  constructor
  · rintro ⟨before, ⟨rest, rfl⟩, rfl⟩
    simp [dropBytes_append]
  · intro h
    obtain ⟨rest, hrest⟩ := Option.isSome_iff_exists.mp h
    obtain ⟨before, rfl, hbefore⟩ := eq_append_of_dropBytes hrest
    exact ⟨before, List.prefix_append _ _, hbefore⟩

instance (cs : List Char) (n : Nat) : Decidable (IsCut cs n) :=
  decidable_of_iff _ isCut_iff_isSome_dropBytes.symm

/-- What is cut off sooner opens what is cut off later. -/
theorem isPrefix_of_byteLength_le {cs xs ys : List Char} (hxs : xs <+: cs) (hys : ys <+: cs)
    (h : byteLength xs ≤ byteLength ys) : xs <+: ys := by
  rcases List.prefix_or_prefix_of_prefix hxs hys with hle | ⟨rest, rfl⟩
  · exact hle
  · have hrest : byteLength rest = 0 := by
      rw [byteLength_append] at h
      omega
    rw [byteLength_eq_zero_iff.mp hrest, List.append_nil]

/-- The text between two cuts. -/
theorem slice_between {s : String} {before part after : List Char}
    (h : s.toList = before ++ part ++ after) :
    slice s (byteLength before) (byteLength (before ++ part)) = String.ofList part := by
  have hbefore : dropBytes (byteLength before) s.toList = some (part ++ after) := by
    rw [h, List.append_assoc, dropBytes_append]
  have hpart : byteLength (before ++ part) - byteLength before = byteLength part := by
    rw [byteLength_append]
    omega
  rw [slice, if_neg (by rw [byteLength_append]; omega), hbefore, hpart]
  simp only [takeBytes_append, Option.getD_some]

/-- The text between two cuts occurs in that between two cuts further out. -/
theorem slice_isInfix {s : String} {start stop start' stop' : Nat}
    (hstart : IsCut s.toList start) (hstop : IsCut s.toList stop) (hstart' : IsCut s.toList start')
    (hstop' : IsCut s.toList stop') (hlow : start' ≤ start) (hhigh : stop ≤ stop') :
    (slice s start stop).toList <:+: (slice s start' stop').toList := by
  by_cases hempty : stop < start
  · rw [slice, if_pos hempty]
    exact List.nil_infix
  obtain ⟨a, ha, rfl⟩ := hstart'
  obtain ⟨b, hb, rfl⟩ := hstart
  obtain ⟨c, hc, rfl⟩ := hstop
  obtain ⟨d, hd, rfl⟩ := hstop'
  -- The four cuts in a row.
  obtain ⟨front, rfl⟩ := isPrefix_of_byteLength_le ha hb hlow
  obtain ⟨part, rfl⟩ := isPrefix_of_byteLength_le hb hc (Nat.le_of_not_lt hempty)
  obtain ⟨back, rfl⟩ := isPrefix_of_byteLength_le hc hd hhigh
  obtain ⟨rest, hrest⟩ := hd
  have hinner : slice s (byteLength (a ++ front)) (byteLength (a ++ front ++ part)) =
      String.ofList part := slice_between (by rw [← hrest, List.append_assoc _ back])
  have houter : slice s (byteLength a) (byteLength (a ++ front ++ part ++ back)) =
      String.ofList (front ++ part ++ back) := by
    have hall : a ++ front ++ part ++ back = a ++ (front ++ part ++ back) := by
      simp only [List.append_assoc]
    rw [hall]
    exact slice_between (by rw [← hall, hrest])
  rw [hinner, houter, String.toList_ofList, String.toList_ofList]
  exact ⟨front, back, rfl⟩

end Text

/-! ### Nested spans -/

namespace Syntax

theorem Span.Within.refl (s : Span) : s.Within s := ⟨Nat.le_refl _, Nat.le_refl _⟩

theorem Span.Within.trans {r s t : Span} (h : r.Within s) (h' : s.Within t) : r.Within t :=
  ⟨Nat.le_trans h'.1 h.1, Nat.le_trans h.2 h'.2⟩

/-- Both ends of the span are cuts of the text. -/
def Span.IsOf (text : String) (s : Span) : Prop :=
  Text.IsCut text.toList s.start ∧ Text.IsCut text.toList s.stop

instance (text : String) (s : Span) : Decidable (s.IsOf text) :=
  inferInstanceAs (Decidable (_ ∧ _))

namespace Node

/-- Every node of the tree has a span of the text, and its children's spans lie within it. -/
def IsOver (text : String) (tree : Node) : Prop :=
  ∀ a n, tree.at? a = some n → n.span.IsOf text ∧ ∀ c ∈ n.children, c.span.Within n.span

theorem isOver_iff_addressesWhere {text : String} {tree : Node} :
    tree.IsOver text ↔ tree.addressesWhere (fun n =>
      !decide (n.span.IsOf text ∧ ∀ c ∈ n.children, c.span.Within n.span)) = [] := by
  rw [List.eq_nil_iff_forall_not_mem]
  constructor
  · intro h a ha
    obtain ⟨n, hn, hfits⟩ := (mem_addressesWhere tree a).mp ha
    rw [decide_eq_true (h a n hn)] at hfits
    cases hfits
  · intro h a n hn
    by_contra hfits
    exact h a ((mem_addressesWhere tree a).mpr ⟨n, hn, by rw [decide_eq_false hfits]; rfl⟩)

instance (text : String) (tree : Node) : Decidable (tree.IsOver text) :=
  decidable_of_iff _ isOver_iff_addressesWhere.symm

variable {text : String} {tree n p : Node} {a : Address}

theorem IsOver.of_at? (h : tree.IsOver text) (hn : tree.at? a = some n) : n.IsOver text := by
  intro b m hm
  exact h (a ++ b) m (by rw [at?_append, hn, Option.bind_some, hm])

theorem IsOver.span_within (h : tree.IsOver text) (hn : tree.at? a = some n) :
    n.span.Within tree.span := by
  induction a generalizing tree with
  | nil =>
    obtain rfl : tree = n := by simpa using hn
    exact .refl _
  | cons i a ih =>
    obtain ⟨c, hc, hn⟩ := Option.bind_eq_some_iff.mp hn
    have hchild : tree.at? [i] = some c := by rw [at?_cons hc, at?_nil]
    exact (ih (h.of_at? hchild) hn).trans ((h [] tree rfl).2 c (List.mem_of_getElem? hc))

/-- The node right around a place is that of which the node there is a child. -/
theorem parentAt?_eq_some_iff :
    tree.parentAt? none a = some p ↔ a ≠ [] ∧ tree.at? a.dropLast = some p := by
  unfold parentAt?
  by_cases ha : a = [] <;> simp [ha]

theorem IsOver.span_within_parent (h : tree.IsOver text) (hn : tree.at? a = some n)
    (hp : tree.parentAt? none a = some p) : n.span.Within p.span := by
  obtain ⟨ha, hp⟩ := parentAt?_eq_some_iff.mp hp
  rw [← List.dropLast_append_getLast ha, at?_append, hp, Option.bind_some] at hn
  exact (h.of_at? hp).span_within hn

end Node

end Syntax

namespace Function

variable {text code : String} {tree m n : Node} {a b : Address}

/-! ### Shown spans -/

/-- What is shown is the function itself or the node right around it. -/
theorem shownSpan_eq_or (n : Node) (parent : Option Node) :
    shownSpan n parent = n.span ∨ ∃ p, parent = some p ∧ shownSpan n parent = p.span := by
  cases parent with
  | none => exact Or.inl rfl
  | some p =>
    unfold shownSpan
    by_cases hmember : (isValueOf n p && showsMember p) = true
    · exact Or.inr ⟨p, rfl, if_pos hmember⟩
    · exact Or.inl (if_neg hmember)

theorem span_within_shownSpan (h : tree.IsOver text) (hn : tree.at? a = some n) :
    n.span.Within (shownSpan n (tree.parentAt? none a)) := by
  rcases shownSpan_eq_or n (tree.parentAt? none a) with heq | ⟨p, hp, heq⟩
  · rw [heq]
    exact .refl _
  · rw [heq]
    exact h.span_within_parent hn hp

theorem shownSpan_isOf (h : tree.IsOver text) (hn : tree.at? a = some n) :
    (shownSpan n (tree.parentAt? none a)).IsOf text := by
  rcases shownSpan_eq_or n (tree.parentAt? none a) with heq | ⟨p, hp, heq⟩
  · rw [heq]
    exact (h a n hn).1
  · rw [heq]
    exact (h _ p (Node.parentAt?_eq_some_iff.mp hp).2).1

/-- Below `m`, what is shown for a function lies within `m`: if it is the node right around the
function, that is `m` or stands below it too. -/
theorem shownSpan_within_of_at? (h : tree.IsOver text) (hm : tree.at? b = some m)
    {rest : Address} (hrest : rest ≠ []) (hn : tree.at? (b ++ rest) = some n) :
    (shownSpan n (tree.parentAt? none (b ++ rest))).Within m.span := by
  rcases shownSpan_eq_or n (tree.parentAt? none (b ++ rest)) with heq | ⟨p, hp, heq⟩
  · rw [Node.at?_append, hm, Option.bind_some] at hn
    rw [heq]
    exact (h.of_at? hm).span_within hn
  · have hp := (Node.parentAt?_eq_some_iff.mp hp).2
    rw [List.dropLast_append_of_ne_nil hrest, Node.at?_append, hm, Option.bind_some] at hp
    rw [heq]
    exact (h.of_at? hm).span_within hp

theorem Encloses.shownSpan_within (hencloses : Encloses tree b a) (h : tree.IsOver text)
    (hm : tree.at? b = some m) (hn : tree.at? a = some n) :
    (shownSpan n (tree.parentAt? none a)).Within (shownSpan m (tree.parentAt? none b)) := by
  obtain ⟨⟨rest, rfl⟩, hne, -⟩ := hencloses
  have hrest : rest ≠ [] := by
    rintro rfl
    exact hne (List.append_nil b).symm
  exact (shownSpan_within_of_at? h hm hrest hn).trans (span_within_shownSpan h hm)

/-! ### Entries -/

/-- The text shown for a function of a piece of code. -/
def Entry.shown (code : String) (e : Entry) : String := Text.slice code e.span.start e.span.stop

theorem IsAround.span_within {i j : Nat} {outer inner : Entry} (haround : IsAround tree i j)
    (h : tree.IsOver code) (houter : (Index.of tree).functions[i]? = some outer)
    (hinner : (Index.of tree).functions[j]? = some inner) :
    inner.span.Within outer.span ∧ inner.span.IsOf code ∧ outer.span.IsOf code := by
  obtain ⟨a, b, ha, hb, hencloses⟩ := haround
  obtain ⟨a', ha', n, hn, hentry⟩ := exists_isEntryAt_of_getElem? hinner
  obtain ⟨b', hb', m, hm, hentry'⟩ := exists_isEntryAt_of_getElem? houter
  obtain rfl : a = a' := Option.some.inj (ha.symm.trans ha')
  obtain rfl : b = b' := Option.some.inj (hb.symm.trans hb')
  rw [hentry.span_eq, hentry'.span_eq]
  exact ⟨hencloses.shownSpan_within h hm hn, shownSpan_isOf h hn, shownSpan_isOf h hm⟩

theorem Entry.shown_isInfix {outer inner : Entry} (hwithin : inner.span.Within outer.span)
    (hinner : inner.span.IsOf code) (houter : outer.span.IsOf code) :
    (inner.shown code).toList <:+: (outer.shown code).toList :=
  Text.slice_isInfix hinner.1 hinner.2 houter.1 houter.2 hwithin.1 hwithin.2

/-! ### Keywords -/

/-- What a search for keywords finds in a function of a piece of code, if it has a name. -/
def Entry.findingIn? (ws : List String) (code : String) (e : Entry) : Option Finding :=
  e.name.bind fun name => findingFrom? ws ⟨name, e.shown code, none⟩

theorem foundIn_subset {ws : List String} {inner outer : String}
    (h : inner.toList <:+: outer.toList) : foundIn ws inner ⊆ foundIn ws outer := by
  intro k hk
  rw [mem_foundIn, mentioned, Finset.mem_filter] at hk ⊢
  exact ⟨hk.1, hk.2.trans h⟩

theorem findingFrom?_of_isInfix {ws : List String} {f g inner outer : String} {y : Finding}
    (h : inner.toList <:+: outer.toList) (hy : findingFrom? ws ⟨g, inner, none⟩ = some y) :
    ∃ x, findingFrom? ws ⟨f, outer, none⟩ = some x ∧ y.foundKeywords ⊆ x.foundKeywords := by
  have hsubset : foundIn ws inner ⊆ foundIn ws outer := foundIn_subset h
  unfold findingFrom? at hy ⊢
  split at hy
  · cases hy
  · next hne =>
    obtain rfl := Option.some.inj hy
    obtain ⟨k, hk⟩ := List.exists_mem_of_ne_nil _ hne
    rw [if_neg (List.ne_nil_of_mem (hsubset hk))]
    exact ⟨_, rfl, hsubset⟩

theorem finding?_unplaced (ws : List String) (f : Named) :
    finding? ((ws.map Text.trim).filter (· ≠ "")) false f =
      findingFrom? ws ⟨f.name, f.content, none⟩ := by
  unfold finding? findingFrom?
  split
  · next hnil => exact (if_pos hnil).symm
  · next hne => exact (if_neg hne).symm

theorem findingIn?_eq (ws : List String) (code : String) (e : Entry) :
    (Named.of? (.snippet code) e).bind (finding? ((ws.map Text.trim).filter (· ≠ "")) false) =
      e.findingIn? ws code := by
  rw [Named.of?, Option.bind_map, Entry.findingIn?]
  exact congrArg _ (funext fun name => finding?_unplaced ws _)

/-- A search in a piece of code reports what it finds in each of the functions in turn. -/
theorem keywordFindingsInCode_eq {ws : List String} (hws : ∃ w ∈ ws, ¬ IsBlank w)
    (htree : (SourceFile.snippet code).tree? = some tree) :
    keywordFindingsInCode code ws =
      .ok ((Index.of tree).functions.toList.filterMap (Entry.findingIn? ws code)) := by
  obtain ⟨w, hw, hblank⟩ := hws
  have hkeywords := keywords_eq_ok ⟨w, hw, mt trim_eq_empty_iff.mp hblank⟩
  have hnamed : namedIn (.snippet code) =
      (Index.of tree).functions.toList.filterMap (Named.of? (.snippet code)) := by
    rw [namedIn_eq_getD, index_of_tree? htree]
    rfl
  have hfound := funext (findingIn?_eq ws code)
  unfold keywordFindingsInCode
  rw [hkeywords, hnamed, ← hfound, ← List.filterMap_filterMap]
  rfl

theorem Entry.exists_findingIn? {ws : List String} {outer inner : Entry} {y : Finding}
    (h : (inner.shown code).toList <:+: (outer.shown code).toList) (hnamed : outer.name.isSome)
    (hy : inner.findingIn? ws code = some y) :
    ∃ x, outer.findingIn? ws code = some x ∧ y.foundKeywords ⊆ x.foundKeywords := by
  unfold Entry.findingIn? at hy ⊢
  obtain ⟨g, -, hy⟩ := Option.bind_eq_some_iff.mp hy
  obtain ⟨f, hf⟩ := Option.isSome_iff_exists.mp hnamed
  rw [hf, Option.bind_some]
  exact findingFrom?_of_isInfix h hy

/-- **Shown spans respect nesting.** In a tree over a text, the span shown for a function lies
within that shown for each function around it, whether these are the functions themselves or the
members they are the values of. So its text occurs in the text of the other one; and what a search
for keywords reports of it is reported of the other one too, if both have names. -/
theorem spans_respect_nesting (h : tree.IsOver code) :
    (∀ i j outer inner, (Index.of tree).functions[i]? = some outer →
      (Index.of tree).functions[j]? = some inner → IsAround tree i j →
      inner.span.Within outer.span ∧ (inner.shown code).toList <:+: (outer.shown code).toList ∧
        ∀ ws y, outer.name.isSome → inner.findingIn? ws code = some y →
          ∃ x, outer.findingIn? ws code = some x ∧ y.foundKeywords ⊆ x.foundKeywords) ∧
    ∀ ws, (∃ w ∈ ws, ¬ IsBlank w) → (SourceFile.snippet code).tree? = some tree →
      keywordFindingsInCode code ws =
        .ok ((Index.of tree).functions.toList.filterMap (Entry.findingIn? ws code)) := by
  constructor
  · intro i j outer inner houter hinner haround
    obtain ⟨hwithin, hof, hof'⟩ := haround.span_within h houter hinner
    have hshown := Entry.shown_isInfix hwithin hof hof'
    exact ⟨hwithin, hshown, fun ws y => Entry.exists_findingIn? hshown⟩
  · intro ws hws htree
    exact keywordFindingsInCode_eq hws htree

/-- A method in an object literal in a method of a class, behind a character of two bytes. -/
theorem spans_respect_nesting_members :
    let code := "/* é */ class K { run(x) { return { [f(() => x)]: 1, go() { return y; } }; } }"
    let run : Entry := ⟨some "run", ⟨19, 77⟩, ["f"], 1⟩
    let go : Entry := ⟨some "go", ⟨54, 72⟩, [], 1⟩
    ∃ tree, (SourceFile.snippet code).tree? = some tree ∧ tree.IsOver code ∧
      (Index.of tree).functions[0]? = some run ∧ (Index.of tree).functions[2]? = some go ∧
      IsAround tree 0 2 ∧ go.shown code = "go() { return y; }" ∧
      go.span.Within run.span ∧ (go.shown code).toList <:+: (run.shown code).toList ∧
      ∃ x, run.findingIn? ["y"] code = some x ∧ ["y"] ⊆ x.foundKeywords := by
  intro code run go
  have hread : (SourceFile.snippet code).tree?.map (fun tree =>
      (decide (tree.IsOver code), tree.addressesWhere isFunction,
        (Index.of tree).functions.toList)) =
      some (true, [[0, 0, 0], [0, 0, 0, 1, 0, 0, 0, 0, 1], [0, 0, 0, 1, 0, 0, 1, 0]],
        [run, ⟨none, ⟨40, 47⟩, [], 1⟩, go]) := by
    decide +kernel
  obtain ⟨tree, htree, hread⟩ := Option.map_eq_some_iff.mp hread
  obtain ⟨hover, hplaces, hfunctions⟩ : tree.IsOver code ∧
      tree.addressesWhere isFunction =
        [[0, 0, 0], [0, 0, 0, 1, 0, 0, 0, 0, 1], [0, 0, 0, 1, 0, 0, 1, 0]] ∧
      (Index.of tree).functions.toList = [run, ⟨none, ⟨40, 47⟩, [], 1⟩, go] := by
    simpa using hread
  have hrun : (Index.of tree).functions[0]? = some run := by
    rw [← Array.getElem?_toList, hfunctions]
    rfl
  have hgo : (Index.of tree).functions[2]? = some go := by
    rw [← Array.getElem?_toList, hfunctions]
    rfl
  have haround : IsAround tree 0 2 := by
    refine ⟨[0, 0, 0, 1, 0, 0, 1, 0], [0, 0, 0], by rw [hplaces]; rfl, by rw [hplaces]; rfl,
      by decide, by decide, (tree.mem_addressesWhere _).mp ?_⟩
    rw [hplaces]
    decide
  have hfinding : go.findingIn? ["y"] code =
      some ⟨"go", ["y"], "go() { return y; }", none⟩ := by decide +kernel
  obtain ⟨hwithin, hshown, hkeywords⟩ :=
    (spans_respect_nesting hover).1 0 2 run go hrun hgo haround
  exact ⟨tree, htree, hover, hrun, hgo, haround, by decide +kernel, hwithin, hshown,
    hkeywords ["y"] _ rfl hfinding⟩

end Function

end ScriptAtlas
