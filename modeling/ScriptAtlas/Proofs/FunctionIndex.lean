import Mathlib.Data.List.Forall2
import ScriptAtlas.Proofs.FunctionWalk

/-! # The index of a tree

An index lists one entry for each function of the tree, in pre-order. What the entry says of calls
and decisions is what the subtree of that function holds, functions inside it included, and each
call names the innermost function around it (`index_exact`). So one walk finds the same as a walk
through each function on its own. -/

namespace ScriptAtlas.Function

open Syntax

/-! ### Calls -/

theorem mem_addName {names : List String} {name c : String} :
    c ∈ addName names name ↔ c = name ∨ c ∈ names := by
  unfold addName
  split
  · next h =>
    have : name ∈ names := by simpa using h
    exact ⟨Or.inr, fun hc => hc.elim (fun he => he ▸ this) id⟩
  · exact List.mem_cons

theorem nodup_addName {names : List String} (h : names.Nodup) (name : String) :
    (addName names name).Nodup := by
  unfold addName
  split
  · exact h
  · next hn => exact List.nodup_cons.mpr ⟨by simpa using hn, h⟩

theorem mem_foldl_addName {added names : List String} {c : String} :
    c ∈ added.foldl addName names ↔ c ∈ names ∨ c ∈ added := by
  induction added generalizing names with
  | nil => simp
  | cons a added ih =>
    rw [List.foldl_cons, ih, mem_addName, List.mem_cons]
    tauto

theorem nodup_foldl_addName {names : List String} (h : names.Nodup) (added : List String) :
    (added.foldl addName names).Nodup := by
  induction added generalizing names with
  | nil => exact h
  | cons a added ih => exact ih (nodup_addName h a)

/-- Does the tree hold a call by the name `c`? -/
def Calls (n : Node) (c : String) : Prop := ∃ a m, n.at? a = some m ∧ calleeName? m = some c

theorem calls_mk {kind : Kind} {span : Span} {children : List Node} {c : String} :
    Calls (.mk kind span children) c ↔
      calleeName? (.mk kind span children) = some c ∨ ∃ n ∈ children, Calls n c :=
  Node.exists_at?_mk

mutual

theorem mem_gather {c : String} : ∀ (n : Node) (names : List String),
    c ∈ gather names n ↔ c ∈ names ∨ Calls n c
  | .mk kind span children, names => by
    rw [gather, calls_mk]
    split
    · next h => simp [mem_foldl_addName, mem_gatherAll children, calleeName?_of_isFunction h]
    · rw [mem_gatherAll children]
      cases calleeName? (.mk kind span children) with
      | none => simp
      | some name =>
        simp only [Option.elim_some, mem_addName, Option.some.injEq, eq_comm (a := name)]
        tauto

theorem mem_gatherAll {c : String} : ∀ (ns : List Node) (names : List String),
    c ∈ gatherAll names ns ↔ c ∈ names ∨ ∃ n ∈ ns, Calls n c
  | [], names => by simp [gatherAll]
  | n :: ns, names => by
    rw [gatherAll, mem_gatherAll ns, mem_gather n, or_assoc]
    simp

end

mutual

theorem nodup_gather : ∀ (n : Node) {names : List String}, names.Nodup → (gather names n).Nodup
  | .mk kind span children, names, h => by
    rw [gather]
    split
    · exact nodup_foldl_addName h _
    · refine nodup_gatherAll children ?_
      cases calleeName? (.mk kind span children) with
      | none => exact h
      | some name => exact nodup_addName h name

theorem nodup_gatherAll : ∀ (ns : List Node) {names : List String}, names.Nodup →
    (gatherAll names ns).Nodup
  | [], _, h => h
  | n :: ns, _, h => nodup_gatherAll ns (nodup_gather n h)

end

/-! ### Decisions -/

mutual

theorem decisions_eq_length : ∀ n : Node, decisions n = (n.addressesWhere isDecision).length
  | .mk kind span children => by
    rw [decisions, Node.addressesWhere, List.length_append, decisionsInAll_eq_length children 0]
    by_cases h : kind = .decision <;> simp [isDecision_mk, h]

theorem decisionsInAll_eq_length : ∀ (ns : List Node) (i : Nat),
    decisionsInAll ns = (Node.addressesWhereFrom isDecision i ns).length
  | [], _ => rfl
  | n :: ns, i => by
    rw [decisionsInAll, Node.addressesWhereFrom, List.length_append, List.length_map,
      decisions_eq_length n, decisionsInAll_eq_length ns (i + 1)]

end

/-! ### Entries -/

/-- What an index says of the function `n` below `parent`, all of it read off its own subtree. -/
structure IsEntryOf (n : Node) (parent : Option Node) (e : Entry) : Prop where
  name_eq : e.name = nameOf n parent
  span_eq : e.span = shownSpan n parent
  nodup_calls : e.calls.Nodup
  mem_calls : ∀ c, c ∈ e.calls ↔ Calls n c
  complexity_eq : e.complexity = 1 + (n.addressesWhere isDecision).length

/-- What an index says of the function at the address `a`. -/
def IsEntryAt (outer : Option Node) (tree : Node) (a : Address) (e : Entry) : Prop :=
  ∃ n, tree.at? a = some n ∧ IsEntryOf n (tree.parentAt? outer a) e

theorem isEntryOf_growAll {kind : Kind} {span : Span} {children : List Node}
    (h : isFunction (.mk kind span children) = true) (parent : Option Node) :
    IsEntryOf (.mk kind span children) parent
      (Entry.growAll children (Entry.fresh (.mk kind span children) parent)) where
  name_eq := rfl
  span_eq := rfl
  nodup_calls := nodup_gatherAll children List.nodup_nil
  mem_calls c := by
    simp [Entry.growAll, Entry.fresh, mem_gatherAll children, calls_mk, calleeName?_of_isFunction h]
  complexity_eq := by
    simp [Entry.growAll, Entry.fresh, decisionsInAll_eq_length children 0, Node.addressesWhere,
      isDecision_of_isFunction h]

theorem IsEntryAt.cons {n c : Node} {i : Nat} (hc : n.children[i]? = some c) {outer : Option Node}
    {a : Address} {e : Entry} (h : IsEntryAt (some n) c a e) : IsEntryAt outer n (i :: a) e := by
  obtain ⟨m, hm, he⟩ := h
  exact ⟨m, by rw [Node.at?_cons hc, hm], by rw [Node.parentAt?_cons hc]; exact he⟩

mutual

theorem forall₂_entriesIn : ∀ (n : Node) (outer : Option Node),
    List.Forall₂ (IsEntryAt outer n) (n.addressesWhere isFunction) (entriesIn outer n)
  | .mk kind span children, outer => by
    have h := forall₂_entriesInAll children (.mk kind span children) [] outer rfl
    rw [Node.addressesWhere, entriesIn]
    by_cases hn : isFunction (.mk kind span children)
    · rw [if_pos hn, if_pos hn]
      exact .cons ⟨_, rfl, isEntryOf_growAll hn outer⟩ h
    · rw [if_neg hn, if_neg hn]
      exact h

/-- The children of `n` from the position `before.length` on. -/
theorem forall₂_entriesInAll : ∀ (ns : List Node) (n : Node) (before : List Node)
    (outer : Option Node), n.children = before ++ ns →
    List.Forall₂ (IsEntryAt outer n) (Node.addressesWhereFrom isFunction before.length ns)
      (entriesInAll n ns)
  | [], _, _, _, _ => .nil
  | c :: ns, n, before, outer, h => by
    have hc : n.children[before.length]? = some c := by simp [h]
    have hns := forall₂_entriesInAll ns n (before ++ [c]) outer (by simp [h])
    rw [Node.addressesWhereFrom, entriesInAll]
    refine List.rel_append (List.forall₂_map_left_iff.mpr ?_) (by simpa using hns)
    exact (forall₂_entriesIn c (some n)).imp fun _ _ => IsEntryAt.cons hc

end

/-! ### Call sites -/

/-- The function at `b` is around the place `a`. -/
def Encloses (tree : Node) (b a : Address) : Prop :=
  b <+: a ∧ b ≠ a ∧ ∃ n, tree.at? b = some n ∧ isFunction n = true

/-- The function at `b` is the innermost one around the place `a`. -/
def IsInnermostAround (tree : Node) (b a : Address) : Prop :=
  Encloses tree b a ∧ ∀ b', Encloses tree b' a → b' <+: b

theorem encloses_cons {n c : Node} {i : Nat} (hc : n.children[i]? = some c) {a b : Address} :
    Encloses n b (i :: a) ↔
      (b = [] ∧ isFunction n = true) ∨ ∃ b', b = i :: b' ∧ Encloses c b' a := by
  cases b with
  | nil => simp [Encloses]
  | cons j b =>
    simp only [Encloses, List.cons_prefix_cons, ne_eq, List.cons.injEq, not_and, reduceCtorEq,
      false_and, false_or]
    constructor
    · rintro ⟨⟨rfl, hba⟩, hne, hn⟩
      exact ⟨b, ⟨rfl, rfl⟩, hba, hne rfl, by rwa [Node.at?_cons hc] at hn⟩
    · rintro ⟨b', ⟨rfl, rfl⟩, hba, hne, hn⟩
      exact ⟨⟨rfl, hba⟩, fun _ => hne, by rwa [Node.at?_cons hc]⟩

theorem IsInnermostAround.cons {n c : Node} {i : Nat} (hc : n.children[i]? = some c)
    {a b : Address} (h : IsInnermostAround c b a) : IsInnermostAround n (i :: b) (i :: a) := by
  refine ⟨(encloses_cons hc).mpr (Or.inr ⟨b, rfl, h.1⟩), fun b' hb' => ?_⟩
  rcases (encloses_cons hc).mp hb' with ⟨rfl, -⟩ | ⟨d, rfl, hd⟩
  · exact List.nil_prefix
  · exact List.cons_prefix_cons.mpr ⟨rfl, h.2 d hd⟩

/-- The function at the root is the innermost one where the child has none around the place. -/
theorem isInnermostAround_root {n c : Node} {i : Nat} (hc : n.children[i]? = some c)
    (hn : isFunction n = true) {a : Address} (h : ∀ b, ¬ Encloses c b a) :
    IsInnermostAround n [] (i :: a) := by
  refine ⟨(encloses_cons hc).mpr (Or.inl ⟨rfl, hn⟩), fun b' hb' => ?_⟩
  rcases (encloses_cons hc).mp hb' with ⟨rfl, -⟩ | ⟨d, -, hd⟩
  · exact List.prefix_rfl
  · exact absurd hd (h d)

/-- What a walk says of the call at the address `a`, in a tree whose functions have the positions
from `next` on and which has `outer` around it. -/
structure IsSiteAt (next : Nat) (outer : Option Nat) (tree : Node) (a : Address) (s : CallSite) :
    Prop where
  callee_eq : (tree.at? a).bind calleeName? = some s.callee
  enclosing_eq : (s.enclosing = outer ∧ ∀ b, ¬ Encloses tree b a) ∨
    ∃ k b, s.enclosing = some (next + k) ∧ (tree.addressesWhere isFunction)[k]? = some b ∧
      IsInnermostAround tree b a

/-- Is the node a call by name? -/
def isNamedCall (n : Node) : Bool := (calleeName? n).isSome

/-- From a child to the node: `fs` are the functions of the node before those of the child. -/
theorem IsSiteAt.cons {n c : Node} {i : Nat} (hc : n.children[i]? = some c) {fs fs' : List Address}
    (hfs : n.addressesWhere isFunction = fs ++ (c.addressesWhere isFunction).map (i :: ·) ++ fs')
    {next : Nat} {outer : Option Nat} {a : Address} {s : CallSite}
    (hroot : isFunction n = true → ∃ fs'', fs = [] :: fs'')
    (h : IsSiteAt (next + fs.length) (if isFunction n then some next else outer) c a s) :
    IsSiteAt next outer n (i :: a) s := by
  refine ⟨by rw [Node.at?_cons hc, h.callee_eq], ?_⟩
  rcases h.enclosing_eq with ⟨hs, hno⟩ | ⟨k, b, hs, hb, hin⟩
  -- No function of the child is around the call: then the root is, or what is around the tree.
  · by_cases hn : isFunction n = true
    · obtain ⟨fs'', rfl⟩ := hroot hn
      refine Or.inr ⟨0, [], by simpa [hn] using hs, by simp [hfs], ?_⟩
      exact isInnermostAround_root hc hn hno
    · refine Or.inl ⟨by simpa [hn] using hs, fun b hb => ?_⟩
      rcases (encloses_cons hc).mp hb with ⟨-, hn'⟩ | ⟨b', -, hb'⟩
      · exact hn hn'
      · exact hno b' hb'
  · refine Or.inr ⟨fs.length + k, i :: b, by rw [hs, Nat.add_assoc], ?_, hin.cons hc⟩
    have hk : k < ((c.addressesWhere isFunction).map (i :: ·)).length := by
      rw [List.length_map]
      exact (List.getElem?_eq_some_iff.mp hb).1
    rw [hfs, List.append_assoc, List.getElem?_append_right (Nat.le_add_right _ _),
      Nat.add_sub_cancel_left, List.getElem?_append_left hk, List.getElem?_map, hb, Option.map_some]

theorem not_encloses_nil (n : Node) (b : Address) : ¬ Encloses n b [] := fun h =>
  h.2.1 (List.prefix_nil.mp h.1)

mutual

theorem forall₂_sitesIn : ∀ (n : Node) (next : Nat) (outer : Option Nat),
    List.Forall₂ (IsSiteAt next outer n) (n.addressesWhere isNamedCall) (sitesIn next outer n)
  | .mk kind span children, next, outer => by
    rw [Node.addressesWhere, sitesIn]
    by_cases hn : isFunction (.mk kind span children) = true
    · have h := forall₂_sitesInAll children (.mk kind span children) [] [[]] next outer rfl
        (by simp [Node.addressesWhere, hn]) fun _ => ⟨[], rfl⟩
      simpa [isNamedCall, calleeName?_of_isFunction hn, hn] using h
    · have h := forall₂_sitesInAll children (.mk kind span children) [] [] next outer rfl
        (by simp [Node.addressesWhere, hn]) fun h => absurd h hn
      rw [if_neg hn]
      simp only [if_neg hn, List.length_nil, Nat.add_zero] at h
      cases hc : calleeName? (.mk kind span children) with
      | none => simpa [isNamedCall, hc] using h
      | some callee =>
        rw [if_pos (by simp [isNamedCall, hc])]
        exact .cons ⟨hc, Or.inl ⟨rfl, not_encloses_nil _⟩⟩ h

/-- The children of `n` from the position `before.length` on; `fs` are the functions of `n` before
those in these children. -/
theorem forall₂_sitesInAll : ∀ (ns : List Node) (n : Node) (before : List Node) (fs : List Address)
    (next : Nat) (outer : Option Nat), n.children = before ++ ns →
    n.addressesWhere isFunction = fs ++ Node.addressesWhereFrom isFunction before.length ns →
    (isFunction n = true → ∃ fs', fs = [] :: fs') →
    List.Forall₂ (IsSiteAt next outer n) (Node.addressesWhereFrom isNamedCall before.length ns)
      (sitesInAll (next + fs.length) (if isFunction n then some next else outer) ns)
  | [], _, _, _, _, _, _, _, _ => .nil
  | c :: ns, n, before, fs, next, outer, h, hfs, hroot => by
    have hc : n.children[before.length]? = some c := by simp [h]
    rw [Node.addressesWhereFrom, ← List.append_assoc] at hfs
    have hns := forall₂_sitesInAll ns n (before ++ [c])
      (fs ++ (c.addressesWhere isFunction).map (before.length :: ·)) next outer (by simp [h])
      (by simpa using hfs) fun hn => by
        obtain ⟨fs', rfl⟩ := hroot hn
        exact ⟨_, List.cons_append ..⟩
    rw [Node.addressesWhereFrom, sitesInAll]
    refine List.rel_append (List.forall₂_map_left_iff.mpr ?_) ?_
    · exact (forall₂_sitesIn c _ _).imp fun _ _ => IsSiteAt.cons hc hfs hroot
    · simpa [Nat.add_assoc] using hns

end

/-! ### The index -/

theorem gains_start (tree : Node) :
    Walk.start.Gains (Walk.start.visit tree) (Entry.grow tree) (entriesIn none tree)
      (sitesIn 0 none tree) :=
  Walk.gains_visit tree Walk.start (by simp [Walk.Anchored, Walk.start])

theorem toList_functions_of (tree : Node) :
    (Index.of tree).functions.toList = entriesIn none tree := (gains_start tree).functions_eq

theorem toList_sites_of (tree : Node) : (Index.of tree).sites.toList = sitesIn 0 none tree :=
  (gains_start tree).sites_eq

theorem exists_of_forall₂_getElem? {α β : Type} {R : α → β → Prop} {as : List α} {bs : List β}
    (h : List.Forall₂ R as bs) {i : Nat} {b : β} (hb : bs[i]? = some b) :
    ∃ a, as[i]? = some a ∧ R a b := by
  obtain ⟨hi, rfl⟩ := List.getElem?_eq_some_iff.mp hb
  have hi' : i < as.length := h.length_eq ▸ hi
  exact ⟨as[i], List.getElem?_eq_getElem hi', h.get hi' hi⟩

/-- An entry of an index is that of the function with the same position in the tree. -/
theorem exists_isEntryAt_of_getElem? {tree : Node} {i : Nat} {e : Entry}
    (he : (Index.of tree).functions[i]? = some e) :
    ∃ a, (tree.addressesWhere isFunction)[i]? = some a ∧ IsEntryAt none tree a e := by
  rw [← Array.getElem?_toList, toList_functions_of] at he
  exact exists_of_forall₂_getElem? (forall₂_entriesIn tree none) he

/-- What an index says of the call at the address `a`: its name, and the position of the innermost
function around it, if there is one. -/
def IsCallSiteAt (tree : Node) (a : Address) (s : CallSite) : Prop :=
  (tree.at? a).bind calleeName? = some s.callee ∧
    match s.enclosing with
    | none => ∀ b, ¬ Encloses tree b a
    | some i => i < (Index.of tree).functions.size ∧
        ∃ b, (tree.addressesWhere isFunction)[i]? = some b ∧ IsInnermostAround tree b a

theorem IsSiteAt.isCallSiteAt {tree : Node} {a : Address} {s : CallSite}
    (h : IsSiteAt 0 none tree a s) : IsCallSiteAt tree a s := by
  obtain ⟨hs, hno⟩ | ⟨k, b, hs, hb, hin⟩ := h.enclosing_eq
  · refine ⟨h.callee_eq, ?_⟩
    rw [hs]
    exact hno
  · have hk : k < (Index.of tree).functions.size := by
      rw [← Array.length_toList, toList_functions_of, length_entriesIn]
      exact (List.getElem?_eq_some_iff.mp hb).1
    refine ⟨h.callee_eq, ?_⟩
    rw [hs, Nat.zero_add]
    exact ⟨hk, b, hb, hin⟩

/-- **The index is exact.** Its entries are those of the functions in pre-order, each with the calls
and decisions of its whole subtree; its sites are the calls by name in pre-order, each with the
innermost function around it; and at the end of the walk nothing is open. -/
theorem index_exact (tree : Node) :
    (∀ p : Node → Bool, (tree.addressesWhere p).Pairwise (· < ·) ∧
      ∀ a, a ∈ tree.addressesWhere p ↔ ∃ n, tree.at? a = some n ∧ p n = true) ∧
    List.Forall₂ (IsEntryAt none tree) (tree.addressesWhere isFunction)
      (Index.of tree).functions.toList ∧
    List.Forall₂ (IsCallSiteAt tree) (tree.addressesWhere isNamedCall)
      (Index.of tree).sites.toList ∧
    (Walk.start.visit tree).frames = [] ∧ (Walk.start.visit tree).ancestors = [] := by
  refine ⟨fun p => ⟨tree.sorted_addressesWhere, tree.mem_addressesWhere⟩, ?_, ?_,
    (gains_start tree).frames_eq, (gains_start tree).ancestors_eq⟩
  · rw [toList_functions_of]
    exact forall₂_entriesIn tree none
  · rw [toList_sites_of]
    exact (forall₂_sitesIn tree 0 none).imp fun _ _ => IsSiteAt.isCallSiteAt

end ScriptAtlas.Function
