import ScriptAtlas.Syntax.Tree

/-! # Addresses in syntax trees

Equal nodes may stand at several places of a tree. A place is told by its address: the positions of
the children on the way down to it. The nodes around a node stand at the proper prefixes of its
address, and the lexicographic order of addresses is the pre-order of the tree
(`sorted_addressesWhere`). -/

namespace ScriptAtlas.Syntax

/-- The way down to a node: the position of a child on each level. -/
abbrev Address := List Nat

namespace Node

/-! ### Places -/

/-- The node at an address. -/
def at? (n : Node) : Address → Option Node
  | [] => some n
  | i :: a => n.children[i]?.bind fun c => c.at? a

/-- The node right around an address; around the tree itself it is `outer`. -/
def parentAt? (outer : Option Node) (n : Node) (a : Address) : Option Node :=
  if a = [] then outer else n.at? a.dropLast

@[simp] theorem at?_nil (n : Node) : n.at? [] = some n := rfl

theorem at?_cons {n c : Node} {i : Nat} (hc : n.children[i]? = some c) (a : Address) :
    n.at? (i :: a) = c.at? a := by simp [at?, hc]

theorem at?_append (n : Node) (a b : Address) : n.at? (a ++ b) = (n.at? a).bind (·.at? b) := by
  induction a generalizing n with
  | nil => rfl
  | cons i a ih =>
    rw [List.cons_append, at?, at?]
    cases n.children[i]? with
    | none => rfl
    | some c => exact ih c

theorem parentAt?_cons {n c : Node} {i : Nat} (hc : n.children[i]? = some c) (outer : Option Node)
    (a : Address) : parentAt? outer n (i :: a) = parentAt? (some n) c a := by
  cases a with
  | nil => simp [parentAt?]
  | cons j a => simp [parentAt?, List.dropLast_cons_of_ne_nil, at?_cons hc]

/-- A node of a tree is the root or stands in one of the children. -/
theorem exists_at?_mk {kind : Kind} {span : Span} {children : List Node} {P : Node → Prop} :
    (∃ a m, (mk kind span children).at? a = some m ∧ P m) ↔
      P (mk kind span children) ∨ ∃ c ∈ children, ∃ a m, c.at? a = some m ∧ P m := by
  constructor
  · rintro ⟨a, m, ha, hm⟩
    cases a with
    | nil =>
      rw [at?_nil, Option.some.injEq] at ha
      exact Or.inl (ha ▸ hm)
    | cons i a =>
      obtain ⟨c, hc, ha⟩ := Option.bind_eq_some_iff.mp ha
      exact Or.inr ⟨c, List.mem_of_getElem? hc, a, m, ha, hm⟩
  · rintro (h | ⟨c, hc, a, m, ha, hm⟩)
    · exact ⟨[], _, rfl, h⟩
    · obtain ⟨i, hi⟩ := List.getElem?_of_mem hc
      exact ⟨i :: a, m, by rw [at?_cons hi, ha], hm⟩

/-! ### The places of some nodes -/

mutual

/-- The addresses of the nodes with a property, a node before its children. -/
def addressesWhere (p : Node → Bool) : Node → List Address
  | mk kind span children =>
    (if p (mk kind span children) then [[]] else []) ++ addressesWhereFrom p 0 children

/-- The addresses of the nodes with a property in children, of which the first is the `i`-th. -/
def addressesWhereFrom (p : Node → Bool) (i : Nat) : List Node → List Address
  | [] => []
  | n :: ns => (n.addressesWhere p).map (i :: ·) ++ addressesWhereFrom p (i + 1) ns

end

variable {p : Node → Bool}

mutual

theorem mem_addressesWhere : ∀ (n : Node) (a : Address),
    a ∈ n.addressesWhere p ↔ ∃ m, n.at? a = some m ∧ p m = true
  | mk kind span children, [] => by
    rw [addressesWhere, List.mem_append, mem_addressesWhereFrom]
    by_cases h : p (mk kind span children) <;> simp [h]
  | mk kind span children, i :: a => by
    rw [addressesWhere, List.mem_append, mem_addressesWhereFrom]
    constructor
    · rintro (h | ⟨j, b, hab, c, hc, h⟩)
      · split at h <;> simp at h
      · obtain ⟨rfl, rfl⟩ : i = j ∧ a = b := by simpa using hab
        rwa [at?_cons hc]
    · rintro ⟨m, hm, hp⟩
      obtain ⟨c, hc, hm⟩ := Option.bind_eq_some_iff.mp hm
      exact Or.inr ⟨i, a, by simp, c, hc, m, hm, hp⟩

theorem mem_addressesWhereFrom : ∀ (ns : List Node) (i : Nat) (a : Address),
    a ∈ addressesWhereFrom p i ns ↔
      ∃ j b, a = (i + j) :: b ∧ ∃ c, ns[j]? = some c ∧ ∃ m, c.at? b = some m ∧ p m = true
  | [], i, a => by simp [addressesWhereFrom]
  | n :: ns, i, a => by
    rw [addressesWhereFrom, List.mem_append, mem_addressesWhereFrom ns, List.mem_map]
    constructor
    · rintro (⟨b, hb, rfl⟩ | ⟨j, b, rfl, h⟩)
      · exact ⟨0, b, rfl, n, rfl, (mem_addressesWhere n b).mp hb⟩
      · exact ⟨j + 1, b, by rw [Nat.add_right_comm, Nat.add_assoc], h⟩
    · rintro ⟨j, b, rfl, c, hc, h⟩
      cases j with
      | zero =>
        obtain rfl : n = c := by simpa using hc
        exact Or.inl ⟨b, (mem_addressesWhere n b).mpr h, rfl⟩
      | succ j => exact Or.inr ⟨j, b, by rw [Nat.add_right_comm, Nat.add_assoc], c, hc, h⟩

end

mutual

/-- The addresses are listed in lexicographic order, which is the pre-order of the nodes. -/
theorem sorted_addressesWhere : ∀ n : Node, (n.addressesWhere p).Pairwise (· < ·)
  | mk kind span children => by
    rw [addressesWhere]
    refine List.pairwise_append.mpr ⟨by split <;> simp, sorted_addressesWhereFrom children 0, ?_⟩
    intro a ha b hb
    obtain ⟨j, b, rfl, -⟩ := (mem_addressesWhereFrom _ _ _).mp hb
    obtain rfl : a = [] := by split at ha <;> simp_all
    exact List.nil_lt_cons _ _

theorem sorted_addressesWhereFrom : ∀ (ns : List Node) (i : Nat),
    (addressesWhereFrom p i ns).Pairwise (· < ·)
  | [], i => by simp [addressesWhereFrom]
  | n :: ns, i => by
    rw [addressesWhereFrom]
    refine List.pairwise_append.mpr ⟨?_, sorted_addressesWhereFrom ns (i + 1), ?_⟩
    · refine List.pairwise_map.mpr ((sorted_addressesWhere n).imp fun h => ?_)
      exact List.cons_lt_cons_iff.mpr (Or.inr ⟨rfl, h⟩)
    · intro a ha b hb
      obtain ⟨a, -, rfl⟩ := List.mem_map.mp ha
      obtain ⟨j, b, rfl, -⟩ := (mem_addressesWhereFrom _ _ _).mp hb
      exact List.cons_lt_cons_iff.mpr (Or.inl (by omega))

end

end Node

end ScriptAtlas.Syntax
