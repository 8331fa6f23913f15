import Mathlib.Algebra.BigOperators.Group.List.Basic
import Mathlib.Algebra.GroupWithZero.Nat
import ScriptAtlas.Proofs.FunctionIndex

/-! # Complexity counted twice

The complexity of a piece of code counts the decisions of its tree in one go; an index counts those
of each function, what is inside it included. A decision lies outside all functions or in exactly
one of the outermost ones, so the two counts add up (`decisions_eq_outside_add_outermost`). A tree
has at least the decisions of each of its parts, so complexity does not grow on the way inwards. -/

namespace ScriptAtlas.Function

open Syntax

/-! ### Places outside functions -/

/-- Is no function of the tree around the place? -/
def isOutside (tree : Node) (a : Address) : Bool :=
  decide (∀ b ∈ tree.addressesWhere isFunction, ¬ (b <+: a ∧ b ≠ a))

theorem isOutside_iff {tree : Node} {a : Address} :
    isOutside tree a = true ↔ ∀ b, ¬ Encloses tree b a := by
  rw [isOutside, decide_eq_true_eq]
  constructor
  · rintro h b ⟨hle, hne, hfunction⟩
    exact h b ((tree.mem_addressesWhere b).mpr hfunction) ⟨hle, hne⟩
  · rintro h b hb ⟨hle, hne⟩
    exact h b ⟨hle, hne, (tree.mem_addressesWhere b).mp hb⟩

theorem isOutside_nil (tree : Node) : isOutside tree [] = true :=
  isOutside_iff.mpr (not_encloses_nil tree)

variable {n c : Node} {i : Nat}

/-- Below a function nothing is outside. -/
theorem isOutside_cons_of_isFunction (hc : n.children[i]? = some c) (hn : isFunction n = true)
    (a : Address) : isOutside n (i :: a) = false := by
  rw [Bool.eq_false_iff, ne_eq, isOutside_iff]
  intro h
  exact h [] ((encloses_cons hc).mpr (Or.inl ⟨rfl, hn⟩))

/-- In a node that is no function, what is outside is seen in the children. -/
theorem isOutside_cons (hc : n.children[i]? = some c) (hn : isFunction n = false) (a : Address) :
    isOutside n (i :: a) = isOutside c a := by
  rw [Bool.eq_iff_iff, isOutside_iff, isOutside_iff]
  constructor
  · intro h b hb
    exact h (i :: b) ((encloses_cons hc).mpr (Or.inr ⟨b, rfl, hb⟩))
  · intro h b hb
    rcases (encloses_cons hc).mp hb with ⟨-, hroot⟩ | ⟨b', -, hb'⟩
    · simp [hn] at hroot
    · exact h b' hb'

/-! ### Entries by place -/

/-- The entries of places with a property, where `es` are the entries of the places `as`. -/
def entriesWhere (p : Address → Bool) (as : List Address) (es : List Entry) : List Entry :=
  ((as.zip es).filter fun q => p q.1).map (·.2)

theorem entriesWhere_append (p : Address → Bool) {as as' : List Address} {es es' : List Entry}
    (h : as.length = es.length) :
    entriesWhere p (as ++ as') (es ++ es') = entriesWhere p as es ++ entriesWhere p as' es' := by
  rw [entriesWhere, List.zip_append h, List.filter_append, List.map_append]
  rfl

theorem entriesWhere_map (p : Address → Bool) (f : Address → Address) (as : List Address)
    (es : List Entry) : entriesWhere p (as.map f) es = entriesWhere (p ∘ f) as es := by
  simp [entriesWhere, List.zip_map_left, List.filter_map, Function.comp_def]

theorem entriesWhere_eq_nil {p : Address → Bool} {as : List Address} (h : ∀ a ∈ as, p a = false)
    (es : List Entry) : entriesWhere p as es = [] := by
  rw [entriesWhere, List.map_eq_nil_iff, List.filter_eq_nil_iff]
  intro q hq
  simp [h q.1 (List.of_mem_zip hq).1]

/-- Of the entries of a tree, in the order of its functions, those of functions in no other one. -/
def outermost (tree : Node) (es : List Entry) : List Entry :=
  entriesWhere (isOutside tree) (tree.addressesWhere isFunction) es

/-- The decisions that a tree has outside all functions. -/
def decisionsOutside (tree : Node) : Nat := (tree.addressesWhere isDecision).countP (isOutside tree)

/-- The decisions of some functions taken together. -/
def totalDecisions (es : List Entry) : Nat := (es.map (·.complexity - 1)).sum

theorem totalDecisions_append (es es' : List Entry) :
    totalDecisions (es ++ es') = totalDecisions es + totalDecisions es' := by
  rw [totalDecisions, List.map_append, List.sum_append]
  rfl

/-! ### Adding up -/

theorem isOutside_of_mem_addressesWhereFrom {p : Node → Bool} {kind : Kind} {span : Span}
    {children : List Node} (hn : isFunction (.mk kind span children) = true) :
    ∀ a ∈ Node.addressesWhereFrom p 0 children,
      isOutside (.mk kind span children) a = false := by
  intro a ha
  obtain ⟨j, b, rfl, c, hc, -⟩ := (Node.mem_addressesWhereFrom _ _ _).mp ha
  rw [Nat.zero_add]
  exact isOutside_cons_of_isFunction hc hn b

/-- In a function nothing is outside, and the function itself is the only outermost one. -/
theorem decisions_of_isFunction {kind : Kind} {span : Span} {children : List Node}
    (hn : isFunction (.mk kind span children) = true) (parent : Option Node) :
    decisionsOutside (.mk kind span children) = 0 ∧
      totalDecisions (outermost (.mk kind span children)
        (entriesIn parent (.mk kind span children))) = decisions (.mk kind span children) := by
  have hkind : kind ≠ .decision := by simpa [isDecision_mk] using isDecision_of_isFunction hn
  constructor
  · rw [decisionsOutside, Node.addressesWhere, if_neg (by simp [isDecision_mk, hkind]),
      List.nil_append, List.countP_eq_zero]
    intro a ha
    simp [isOutside_of_mem_addressesWhereFrom hn a ha]
  · rw [outermost, Node.addressesWhere, if_pos hn, entriesIn, if_pos hn, entriesWhere_append _ rfl,
      entriesWhere_eq_nil (isOutside_of_mem_addressesWhereFrom hn)]
    simp [entriesWhere, isOutside_nil, totalDecisions, Entry.growAll, Entry.fresh, decisions, hkind]

mutual

/-- **A decision is outside all functions or in one outermost function.** -/
theorem decisions_eq_outside_add_outermost : ∀ (n : Node) (parent : Option Node),
    decisions n = decisionsOutside n + totalDecisions (outermost n (entriesIn parent n))
  | .mk kind span children, parent => by
    by_cases hn : isFunction (.mk kind span children) = true
    · obtain ⟨houtside, htotal⟩ := decisions_of_isFunction hn parent
      rw [houtside, htotal, Nat.zero_add]
    · have hall := decisionsInAll_eq children (.mk kind span children) [] rfl (by simpa using hn)
      have hroot : List.countP (isOutside (.mk kind span children))
          (if isDecision (.mk kind span children) then [[]] else []) =
            if kind = .decision then 1 else 0 := by
        rw [isDecision_mk]
        by_cases hkind : kind = .decision <;> simp [hkind, isOutside_nil]
      rw [decisionsOutside, outermost, Node.addressesWhere, Node.addressesWhere, entriesIn,
        if_neg hn, if_neg hn, List.nil_append, List.nil_append, decisions, hall, List.countP_append,
        hroot, Nat.add_assoc]
      rfl

/-- The children of `n`, which is no function, from the position `before.length` on. -/
theorem decisionsInAll_eq : ∀ (ns : List Node) (n : Node) (before : List Node),
    n.children = before ++ ns → isFunction n = false →
    decisionsInAll ns =
      (Node.addressesWhereFrom isDecision before.length ns).countP (isOutside n) +
        totalDecisions (entriesWhere (isOutside n)
          (Node.addressesWhereFrom isFunction before.length ns) (entriesInAll n ns))
  | [], _, _, _, _ => by
    simp [decisionsInAll, Node.addressesWhereFrom, entriesWhere, totalDecisions]
  | c :: ns, n, before, h, hn => by
    have hc : n.children[before.length]? = some c := by simp [h]
    have hns := decisionsInAll_eq ns n (before ++ [c]) (by simp [h]) hn
    have hfirst := decisions_eq_outside_add_outermost c (some n)
    have houtside : isOutside n ∘ (before.length :: ·) = isOutside c :=
      funext (isOutside_cons hc hn)
    have hlen : ((c.addressesWhere isFunction).map (before.length :: ·)).length =
        (entriesIn (some n) c).length := by
      rw [List.length_map, length_entriesIn]
    rw [List.length_append, List.length_singleton] at hns
    rw [decisionsOutside, outermost] at hfirst
    rw [decisionsInAll, Node.addressesWhereFrom, Node.addressesWhereFrom, entriesInAll,
      entriesWhere_append _ hlen, totalDecisions_append, entriesWhere_map, List.countP_append,
      List.countP_map, houtside]
    omega

end

/-! ### Parts of a tree -/

theorem decisions_le_decisionsInAll {ns : List Node} (h : n ∈ ns) :
    decisions n ≤ decisionsInAll ns := by
  induction ns with
  | nil => simp at h
  | cons m ns ih =>
    rw [decisionsInAll]
    rcases List.mem_cons.mp h with rfl | h
    · omega
    · have := ih h
      omega

theorem decisions_le_of_at? {a : Address} (h : n.at? a = some c) : decisions c ≤ decisions n := by
  induction a generalizing n with
  | nil =>
    obtain rfl : n = c := by simpa using h
    exact Nat.le_refl _
  | cons i a ih =>
    obtain ⟨m, hm, hc⟩ := Option.bind_eq_some_iff.mp h
    obtain ⟨kind, span, children⟩ := n
    have hchild : decisions m ≤ decisionsInAll children :=
      decisions_le_decisionsInAll (List.mem_of_getElem? hm)
    have hpart := ih hc
    rw [decisions]
    omega

theorem IsEntryOf.complexity_eq_decisions {parent : Option Node} {e : Entry}
    (h : IsEntryOf n parent e) : e.complexity = 1 + decisions n := by
  rw [h.complexity_eq, decisions_eq_length]

theorem IsEntryAt.complexity_le {tree : Node} {a : Address} {e : Entry}
    (h : IsEntryAt none tree a e) : e.complexity ≤ 1 + decisions tree := by
  obtain ⟨n, hn, he⟩ := h
  rw [he.complexity_eq_decisions]
  have := decisions_le_of_at? hn
  omega

theorem Encloses.complexity_le {tree : Node} {a b : Address} {d e : Entry} (h : Encloses tree b a)
    (hd : IsEntryAt none tree b d) (he : IsEntryAt none tree a e) :
    e.complexity ≤ d.complexity := by
  obtain ⟨m, hm, hd⟩ := hd
  obtain ⟨n, hn, he⟩ := he
  obtain ⟨rest, rfl⟩ := h.1
  rw [Node.at?_append, hm, Option.bind_some] at hn
  rw [hd.complexity_eq_decisions, he.complexity_eq_decisions]
  have := decisions_le_of_at? hn
  omega

/-! ### Code -/

/-- The `j`-th function of the tree is around the `i`-th one. -/
def IsAround (tree : Node) (j i : Nat) : Prop :=
  ∃ a b, (tree.addressesWhere isFunction)[i]? = some a ∧
    (tree.addressesWhere isFunction)[j]? = some b ∧ Encloses tree b a

theorem complexityOfCode_eq {code : String} {tree : Node}
    (h : (SourceFile.snippet code).tree? = some tree) :
    complexityOfCode code = 1 + decisions tree := by
  unfold complexityOfCode
  rw [h]

theorem index_of_tree? {code : String} {tree : Node}
    (h : (SourceFile.snippet code).tree? = some tree) :
    Index.ofFile? (.snippet code) = some (Index.of tree) := by
  unfold Index.ofFile?
  rw [h, Option.map_some]

/-- **The two counts of complexity agree.** That of a readable piece of code is one more than the
decisions outside functions and those of the outermost functions of its index. Every function has
a complexity of at least one, at most that of each function around it and at most that of the
code. -/
theorem complexityOfCode_eq_add_outermost {code : String} {tree : Node}
    (h : (SourceFile.snippet code).tree? = some tree) :
    ∃ index, Index.ofFile? (.snippet code) = some index ∧
      complexityOfCode code = 1 + decisionsOutside tree +
        ((outermost tree index.functions.toList).map (·.complexity - 1)).sum ∧
      ∀ i e, index.functions[i]? = some e →
        1 ≤ e.complexity ∧ e.complexity ≤ complexityOfCode code ∧
          ∀ j d, index.functions[j]? = some d → IsAround tree j i →
            e.complexity ≤ d.complexity := by
  have hcode := complexityOfCode_eq h
  refine ⟨Index.of tree, index_of_tree? h, ?_, fun i e he => ?_⟩
  · rw [hcode, toList_functions_of, decisions_eq_outside_add_outermost tree none, Nat.add_assoc]
    rfl
  · obtain ⟨a, ha, hentry⟩ := exists_isEntryAt_of_getElem? he
    refine ⟨?_, hcode ▸ hentry.complexity_le, fun j d hd hji => ?_⟩
    · obtain ⟨n, -, hn⟩ := hentry
      rw [hn.complexity_eq_decisions]
      omega
    · obtain ⟨a', b, ha', hb, hencloses⟩ := hji
      obtain ⟨b', hb', hentry'⟩ := exists_isEntryAt_of_getElem? hd
      obtain rfl : a = a' := Option.some.inj (ha.symm.trans ha')
      obtain rfl : b = b' := Option.some.inj (hb.symm.trans hb')
      exact hencloses.complexity_le hentry' hentry

/-- One decision outside, one in a function and one in a function inside that. -/
theorem complexityOfCode_eq_add_outermost_nested :
    let code := "if (a) {} function f(x) { if (x) {} return () => x ? 1 : 2; }"
    ∃ tree, (SourceFile.snippet code).tree? = some tree ∧ complexityOfCode code = 4 ∧
      decisionsOutside tree = 1 ∧ (Index.of tree).functions.toList.map (·.complexity) = [3, 2] ∧
      ∃ index, Index.ofFile? (.snippet code) = some index ∧
        complexityOfCode code = 1 + decisionsOutside tree +
          ((outermost tree index.functions.toList).map (·.complexity - 1)).sum := by
  intro code
  have hcounts : (SourceFile.snippet code).tree?.map (fun tree =>
      (decisions tree, decisionsOutside tree,
        (Index.of tree).functions.toList.map (·.complexity))) = some (3, 1, [3, 2]) := by
    decide +kernel
  obtain ⟨tree, htree, hcounts⟩ := Option.map_eq_some_iff.mp hcounts
  obtain ⟨hdecisions, houtside, hindexed⟩ : decisions tree = 3 ∧ decisionsOutside tree = 1 ∧
      (Index.of tree).functions.toList.map (·.complexity) = [3, 2] := by
    simpa using hcounts
  have hfour : complexityOfCode code = 4 := by rw [complexityOfCode_eq htree, hdecisions]
  obtain ⟨index, hindex, hcode, -⟩ := complexityOfCode_eq_add_outermost htree
  exact ⟨tree, htree, hfour, houtside, hindexed, index, hindex, hcode⟩

end ScriptAtlas.Function
