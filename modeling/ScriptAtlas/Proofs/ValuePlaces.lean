import ScriptAtlas.Proofs.FunctionIndex
import ScriptAtlas.Proofs.RegularGrammar

/-! # Functions as values, by span and by place

A declarator, method or property gives its name to its value, and a function is taken for that value
if it has the same span. The value of a method is a function in the tree of every file
(`SourceFile.methodsHoldFunctions`), and in a tree where no function has the span of another one the
span tells the place: what is taken for the value of a node stands where the value stands
(`isValueOf_iff`). So names and shown spans follow from places alone, and a function in a key, a
decorator, a default or any other part gets nothing from the node around it. -/

namespace ScriptAtlas

/-! ### Places of values -/

namespace Syntax.Node

/-- The position of the value among the children of a declarator, method or property. -/
def valuePosition? (p : Node) : Option Nat :=
  match p.kind with
  | .declarator _ true | .method _ | .property _ _ => some (p.children.length - 1)
  | _ => none

theorem value?_eq_bind (p : Node) : p.value? = p.valuePosition?.bind (p.children[·]?) := by
  unfold value? valuePosition?
  cases p.kind with
  | declarator binding hasInit => cases hasInit <;> simp [List.getLast?_eq_getElem?]
  | method key => simp [List.getLast?_eq_getElem?]
  | property key shorthand => simp [List.getLast?_eq_getElem?]
  | _ => rfl

/-- The node right around an address, if what stands at the address is itself its value. -/
def holderAt? (tree : Node) (a : Address) : Option Node :=
  (tree.parentAt? none a).filter (·.valuePosition? = a.getLast?)

theorem holderAt?_eq_some_iff {tree p : Node} {a : Address} :
    tree.holderAt? a = some p ↔
      tree.parentAt? none a = some p ∧ p.valuePosition? = a.getLast? := by
  rw [holderAt?, Option.filter_eq_some_iff, decide_eq_true_eq]

theorem at?_concat (tree : Node) (b : Address) (i : Nat) :
    tree.at? (b ++ [i]) = (tree.at? b).bind (·.children[i]?) := by
  rw [at?_append]
  congr 1
  funext p
  simp [at?]

theorem parentAt?_concat (outer : Option Node) (tree : Node) (b : Address) (i : Nat) :
    tree.parentAt? outer (b ++ [i]) = tree.at? b := by
  simp [parentAt?]

/-- The value of every method is a function, with a body or without. -/
def MethodsHoldFunctions (tree : Node) : Prop :=
  ∀ a p key v, tree.at? a = some p → p.kind = .method key → p.value? = some v →
    Function.isFunctionValue v = true

theorem IsRegular.methodsHoldFunctions {tree : Node} (h : tree.IsRegular) :
    tree.MethodsHoldFunctions := by
  intro a p key v hp hkind hv
  have htakes := h a p hp
  rw [hkind] at htakes
  obtain ⟨f, hf, hfunction⟩ := htakes
  rw [value?, hkind] at hv
  obtain rfl : f = v := Option.some.inj (hf.symm.trans hv)
  exact hfunction

end Syntax.Node

theorem SourceFile.methodsHoldFunctions {file : SourceFile} {tree : Syntax.Node}
    (h : file.tree? = some tree) : tree.MethodsHoldFunctions :=
  (isRegular_of_tree? h).methodsHoldFunctions

namespace Function

open Syntax

/-! ### Spans -/

/-- No function of the tree has the span of another one. One without a body counts as another: it
may be the value of a method. -/
def DistinctSpans (tree : Node) : Prop :=
  ∀ a b m n, tree.at? a = some m → tree.at? b = some n → isFunction m = true →
    isFunctionValue n = true → m.span = n.span → a = b

theorem distinctSpans_iff {tree : Node} :
    DistinctSpans tree ↔
      ∀ a ∈ tree.addressesWhere isFunction, ∀ b ∈ tree.addressesWhere isFunctionValue,
        (tree.at? a).map Node.span = (tree.at? b).map Node.span → a = b := by
  simp only [Node.mem_addressesWhere]
  constructor
  · rintro h a ⟨m, hm, hmf⟩ b ⟨n, hn, hnf⟩ hspan
    rw [hm, hn, Option.map_some, Option.map_some, Option.some.injEq] at hspan
    exact h a b m n hm hn hmf hnf hspan
  · intro h a b m n hm hn hmf hnf hspan
    exact h a ⟨m, hm, hmf⟩ b ⟨n, hn, hnf⟩ (by rw [hm, hn, Option.map_some, Option.map_some, hspan])

instance (tree : Node) : Decidable (DistinctSpans tree) := decidable_of_iff _ distinctSpans_iff.symm

variable {tree : Node} {a : Address} {n p : Node}

theorem isFunctionValue_of_isFunction (h : isFunction n = true) : isFunctionValue n = true := by
  unfold isFunction at h
  unfold isFunctionValue
  split at h <;> simp_all

theorem isValueOf_eq_true_iff :
    isValueOf n p = true ↔ ∃ v, p.value? = some v ∧ v.span = n.span ∧
      (isFunctionValue v = true ∨ ∃ key, p.kind = .method key) := by
  have hmethod : isValueOf.isMethod p = true ↔ ∃ key, p.kind = .method key := by
    unfold isValueOf.isMethod
    cases p.kind <;> simp
  unfold isValueOf
  cases p.value? with
  | none => simp
  | some v => simp [hmethod]

/-! ### Names and shown spans -/

/-- The name of the function `n` at `a`: its own, or else the one given by the node that it is
itself the value of. -/
def nameByPlace (tree : Node) (a : Address) (n : Node) : Option String :=
  (ownName? n).or ((tree.holderAt? a).bind givenName?)

/-- The span shown for the function `n` at `a`: that of the class method, or of the property written
as a method, that it is itself the value of, or else its own. -/
def spanByPlace (tree : Node) (a : Address) (n : Node) : Span :=
  (((tree.holderAt? a).filter showsMember).map Node.span).getD n.span

section Places

variable (hmethods : tree.MethodsHoldFunctions) (hspans : DistinctSpans tree)
  (hn : tree.at? a = some n) (hf : isFunction n = true)

include hmethods hspans hn hf

/-- **The span stands for the place.** A function is taken for the value of the node around it
exactly if it stands where the value stands. -/
theorem isValueOf_iff (hp : tree.parentAt? none a = some p) :
    isValueOf n p = true ↔ p.valuePosition? = a.getLast? := by
  obtain rfl | ⟨b, i, rfl⟩ := List.eq_nil_or_concat a
  · cases hp
  rw [List.concat_eq_append] at hn hp ⊢
  rw [Node.parentAt?_concat] at hp
  have hi : p.children[i]? = some n := by rwa [Node.at?_concat, hp, Option.bind_some] at hn
  rw [isValueOf_eq_true_iff, List.getLast?_concat]
  constructor
  -- Both the function and what it is taken for are functions of the tree, so their places agree.
  · rintro ⟨v, hv, hspan, hfunction⟩
    have hvf : isFunctionValue v = true :=
      hfunction.elim id fun ⟨key, hkey⟩ => hmethods b p key v hp hkey hv
    rw [Node.value?_eq_bind] at hv
    obtain ⟨j, hj, hv⟩ := Option.bind_eq_some_iff.mp hv
    have hjv : tree.at? (b ++ [j]) = some v := by rw [Node.at?_concat, hp, Option.bind_some, hv]
    have hsame := hspans _ _ n v hn hjv hf hvf hspan.symm
    obtain rfl : i = j := by simpa using hsame
    exact hj
  · intro hposition
    refine ⟨n, ?_, rfl, Or.inl (isFunctionValue_of_isFunction hf)⟩
    rw [Node.value?_eq_bind, hposition, Option.bind_some, hi]

theorem nameOf_eq_nameByPlace :
    nameOf n (tree.parentAt? none a) = nameByPlace tree a n := by
  unfold nameOf nameByPlace Node.holderAt?
  cases ownName? n with
  | some name => rfl
  | none =>
    cases hp : tree.parentAt? none a with
    | none => rfl
    | some p =>
      have hvalue := isValueOf_iff hmethods hspans hn hf hp
      by_cases h : p.valuePosition? = a.getLast? <;> simp [Option.filter, hvalue, h]

theorem shownSpan_eq_spanByPlace :
    shownSpan n (tree.parentAt? none a) = spanByPlace tree a n := by
  unfold shownSpan spanByPlace Node.holderAt?
  cases hp : tree.parentAt? none a with
  | none => rfl
  | some p =>
    have hvalue := isValueOf_iff hmethods hspans hn hf hp
    by_cases h : p.valuePosition? = a.getLast? <;> by_cases hs : showsMember p <;>
      simp [Option.filter, hvalue, h, hs]

end Places

/-- A span that differs from the function's own is shown exactly if it is that of a member which
shows as a whole and which the function is itself the value of. -/
theorem spanByPlace_eq_iff (hp : tree.parentAt? none a = some p) (hne : p.span ≠ n.span) :
    spanByPlace tree a n = p.span ↔ tree.holderAt? a = some p ∧ showsMember p = true := by
  rw [Node.holderAt?_eq_some_iff, spanByPlace, Node.holderAt?, hp]
  by_cases h : p.valuePosition? = a.getLast? <;> by_cases hs : showsMember p <;>
    simp [Option.filter, h, hs, hne.symm]

/-- The entry has the name and the span that follow from the place of its function. -/
def IsNamedByPlace (tree : Node) (a : Address) (e : Entry) : Prop :=
  ∃ n, tree.at? a = some n ∧ e.name = nameByPlace tree a n ∧ e.span = spanByPlace tree a n

/-- **Names and shown spans follow from places.** If no function of a tree has the span of another
one, a function has its own name, or else the name of the declarator, method or property that it is
itself the value of. What is shown for it is the whole member exactly if it is itself the value of
a class method or of a property written as a method. A function in any other part of the node
around it gets neither a name nor a span from that node. This is also what the index says. -/
theorem functions_named_by_place (hmethods : tree.MethodsHoldFunctions)
    (hspans : DistinctSpans tree) :
    (∀ a n, tree.at? a = some n → isFunction n = true →
      nameOf n (tree.parentAt? none a) = nameByPlace tree a n ∧
      shownSpan n (tree.parentAt? none a) = spanByPlace tree a n ∧
      (∀ p, tree.parentAt? none a = some p → p.span ≠ n.span →
        (shownSpan n (some p) = p.span ↔ tree.holderAt? a = some p ∧ showsMember p = true)) ∧
      (tree.holderAt? a = none →
        nameOf n (tree.parentAt? none a) = ownName? n ∧
        shownSpan n (tree.parentAt? none a) = n.span)) ∧
    List.Forall₂ (IsNamedByPlace tree) (tree.addressesWhere isFunction)
      (Index.of tree).functions.toList := by
  constructor
  · intro a n hn hf
    have hname := nameOf_eq_nameByPlace hmethods hspans hn hf
    have hspan := shownSpan_eq_spanByPlace hmethods hspans hn hf
    refine ⟨hname, hspan, fun p hp hne => ?_, fun hnone => ?_⟩
    · have hshown : shownSpan n (some p) = spanByPlace tree a n := hp ▸ hspan
      rw [hshown]
      exact spanByPlace_eq_iff hp hne
    · rw [hname, hspan, nameByPlace, spanByPlace, hnone]
      exact ⟨Option.or_none, rfl⟩
  · rw [toList_functions_of]
    have hfunctions : ∀ a ∈ tree.addressesWhere isFunction,
        ∃ n, tree.at? a = some n ∧ isFunction n = true := fun a => (tree.mem_addressesWhere a).mp
    refine (List.forall₂_and_left _ _ |>.mpr ⟨hfunctions, forall₂_entriesIn tree none⟩).imp ?_
    rintro a e ⟨⟨n, hn, hf⟩, m, hm, he⟩
    obtain rfl : n = m := Option.some.inj (hn.symm.trans hm)
    refine ⟨n, hn, ?_, ?_⟩
    · rw [he.name_eq, nameOf_eq_nameByPlace hmethods hspans hn hf]
    · rw [he.span_eq, shownSpan_eq_spanByPlace hmethods hspans hn hf]

/-- Functions in a decorator, in keys and in a default, next to methods with a body and without. -/
theorem functions_named_by_place_parts :
    let code := "class K { @d(() => 0) [() => 1](x = () => 2) {} [() => 3](); run() {} } " ++
      "const f = function g() {}, h = () => 6;"
    ∃ tree, (SourceFile.snippet code).tree? = some tree ∧ tree.MethodsHoldFunctions ∧
      DistinctSpans tree ∧
      (Index.of tree).functions.toList.map
          (fun e => (e.name, Text.slice code e.span.start e.span.stop)) =
        [(none, "() => 0"), (none, "() => 1"), (none, "@d(() => 0) [() => 1](x = () => 2) {}"),
          (none, "() => 2"), (none, "() => 3"), (some "run", "run() {}"),
          (some "g", "function g() {}"), (some "h", "() => 6")] ∧
      List.Forall₂ (IsNamedByPlace tree) (tree.addressesWhere isFunction)
        (Index.of tree).functions.toList := by
  intro code
  have hread : (SourceFile.snippet code).tree?.map (fun tree => (decide (DistinctSpans tree),
      (Index.of tree).functions.toList.map
        (fun e => (e.name, Text.slice code e.span.start e.span.stop)))) =
      some (true, [(none, "() => 0"), (none, "() => 1"),
        (none, "@d(() => 0) [() => 1](x = () => 2) {}"), (none, "() => 2"), (none, "() => 3"),
        (some "run", "run() {}"), (some "g", "function g() {}"), (some "h", "() => 6")]) := by
    decide +kernel
  obtain ⟨tree, htree, hread⟩ := Option.map_eq_some_iff.mp hread
  obtain ⟨hspans, hfunctions⟩ := Prod.mk.inj hread
  have hmethods := SourceFile.methodsHoldFunctions htree
  have hspans : DistinctSpans tree := of_decide_eq_true hspans
  exact ⟨tree, htree, hmethods, hspans, hfunctions, (functions_named_by_place hmethods hspans).2⟩

end Function

end ScriptAtlas
