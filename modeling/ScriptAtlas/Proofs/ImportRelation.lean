import Mathlib.Data.List.Chain
import Mathlib.Logic.Relation
import ScriptAtlas.Graph.Basic

/-! # The import relation of a module graph

A module graph is a finite relation between modules. It is acyclic if no module leads back to
itself, and a list of all its modules in which every import points further down shows this
(`acyclic_of_descending`). A cycle is given by the modules on the way round (`IsCycle`). -/

namespace ScriptAtlas.ModuleGraph

variable {g : ModuleGraph} {x y : String}

/-! ### Imports -/

/-- Does the module `x` import `y`? -/
def Imports (g : ModuleGraph) (x y : String) : Prop := y ∈ g.targets x

theorem find?_of_mem {es : List ModuleEntry} (h : (es.map (·.id)).Nodup) {e : ModuleEntry}
    (he : e ∈ es) : es.find? (·.id = e.id) = some e := by
  induction es with
  | nil => simp at he
  | cons d es ih =>
    rw [List.map_cons, List.nodup_cons] at h
    rcases List.mem_cons.mp he with rfl | he
    · simp
    · have hd : d.id ≠ e.id := fun hd => h.1 (hd ▸ List.mem_map_of_mem he)
      rw [List.find?_cons_of_neg (by simpa using hd)]
      exact ih h.2 he

theorem targets_of_mem {e : ModuleEntry} (he : e ∈ g.entries) : g.targets e.id = e.targets := by
  unfold targets
  rw [find?_of_mem g.nodup_keys he]

theorem targets_nodup (g : ModuleGraph) (x : String) : (g.targets x).Nodup := by
  unfold targets
  split
  · next e he => exact g.nodup_targets e (List.mem_of_find?_eq_some he)
  · exact List.nodup_nil

theorem exists_entry_of_imports (h : g.Imports x y) :
    ∃ e ∈ g.entries, e.id = x ∧ y ∈ e.targets := by
  unfold Imports targets at h
  split at h
  · next e he => exact ⟨e, List.mem_of_find?_eq_some he, by simpa using List.find?_some he, h⟩
  · simp at h

theorem Imports.mem_keys (h : g.Imports x y) : x ∈ g.keys := by
  obtain ⟨e, he, rfl, -⟩ := exists_entry_of_imports h
  exact List.mem_map_of_mem he

/-! ### Leaving out imports -/

/-- The graph without some of its imports. -/
def without (g : ModuleGraph) (removed : List Edge) : ModuleGraph where
  entries := g.entries.map fun e => ⟨e.id, e.targets.filter fun t => ⟨e.id, t⟩ ∉ removed⟩
  nodup_keys := by simpa [Function.comp_def] using g.nodup_keys
  nodup_targets := by
    intro e he
    obtain ⟨d, hd, rfl⟩ := List.mem_map.mp he
    exact (g.nodup_targets d hd).filter _

theorem imports_without {removed : List Edge} :
    (g.without removed).Imports x y ↔ g.Imports x y ∧ ⟨x, y⟩ ∉ removed := by
  constructor
  · intro h
    obtain ⟨e, he, rfl, hy⟩ := exists_entry_of_imports h
    obtain ⟨d, hd, rfl⟩ := List.mem_map.mp he
    rw [List.mem_filter, decide_eq_true_eq] at hy
    exact ⟨by rw [Imports, targets_of_mem hd]; exact hy.1, hy.2⟩
  · rintro ⟨h, hr⟩
    obtain ⟨e, he, rfl, hy⟩ := exists_entry_of_imports h
    have hd : ⟨e.id, e.targets.filter fun t => ⟨e.id, t⟩ ∉ removed⟩ ∈ (g.without removed).entries :=
      List.mem_map_of_mem he
    have ht := targets_of_mem hd
    rw [Imports, ht, List.mem_filter]
    exact ⟨hy, by simpa using hr⟩

/-! ### Cycles -/

/-- No module leads back to itself. -/
def Acyclic (g : ModuleGraph) : Prop := ∀ x, ¬ Relation.TransGen g.Imports x x

/-- The modules on a way round, of which only the first occurs again, at the end. -/
structure IsCycle (g : ModuleGraph) (c : List String) : Prop where
  two_le_length : 2 ≤ c.length
  head?_eq_getLast? : c.head? = c.getLast?
  nodup_dropLast : c.dropLast.Nodup
  mem_keys : ∀ x ∈ c, x ∈ g.keys
  isChain : c.IsChain g.Imports

theorem transGen_of_isChain {l : List String} (h : (x :: l).IsChain g.Imports)
    (hy : (x :: l).getLast? = some y) (hl : l ≠ []) : Relation.TransGen g.Imports x y := by
  induction l generalizing x with
  | nil => exact absurd rfl hl
  | cons z l ih =>
    rw [List.isChain_cons_cons] at h
    by_cases hz : l = []
    · subst hz
      obtain rfl : z = y := by simpa using hy
      exact .single h.1
    · exact .head h.1 (ih h.2 (by simpa using hy) hz)

theorem IsCycle.not_acyclic {c : List String} (h : g.IsCycle c) : ¬ g.Acyclic := by
  intro hg
  match c, h with
  | [], h => simpa using h.two_le_length
  | [x], h => simpa using h.two_le_length
  | x :: y :: l, h =>
    exact hg x (transGen_of_isChain h.isChain h.head?_eq_getLast?.symm (List.cons_ne_nil _ _))

/-! ### Orders -/

/-- Does every step of `r` from a member of the list lead to a later member? -/
def Descending (r : String → String → Prop) : List String → Prop
  | [] => True
  | x :: xs => (∀ y, r x y → y ∈ xs) ∧ Descending r xs

variable {r r' : String → String → Prop} {xs : List String}

theorem Descending.mono (h : Descending r xs) (hr : ∀ x y, r' x y → r x y) : Descending r' xs := by
  induction xs with
  | nil => trivial
  | cons x xs ih => exact ⟨fun y hy => h.1 y (hr x y hy), ih h.2⟩

theorem Descending.mem_of_rel (h : Descending r xs) (hx : x ∈ xs) (hxy : r x y) : y ∈ xs := by
  induction xs with
  | nil => simp at hx
  | cons z xs ih =>
    rcases List.mem_cons.mp hx with rfl | hx
    · exact List.mem_cons_of_mem _ (h.1 y hxy)
    · exact List.mem_cons_of_mem _ (ih h.2 hx)

theorem Descending.mem_of_transGen (h : Descending r xs) (hx : x ∈ xs)
    (hxy : Relation.TransGen r x y) : y ∈ xs := by
  induction hxy with
  | single hxy => exact h.mem_of_rel hx hxy
  | tail _ hyz ih => exact h.mem_of_rel ih hyz

/-- From a member without repetition only later members are reached, so not the member itself. -/
theorem Descending.not_transGen_self (h : Descending r xs) (hn : xs.Nodup) (hx : x ∈ xs) :
    ¬ Relation.TransGen r x x := by
  induction xs with
  | nil => simp at hx
  | cons z xs ih =>
    rw [List.nodup_cons] at hn
    intro hxx
    rcases List.mem_cons.mp hx with rfl | hx
    · obtain ⟨y, hxy, hyx⟩ := Relation.TransGen.head'_iff.mp hxx
      have hy := h.1 y hxy
      rcases Relation.reflTransGen_iff_eq_or_transGen.mp hyx with rfl | hyx
      · exact hn.1 hy
      · exact hn.1 (h.2.mem_of_transGen hy hyx)
    · exact ih h.2 hn.2 hx hxx

theorem acyclic_of_descending (h : Descending g.Imports xs) (hn : xs.Nodup)
    (hk : ∀ x ∈ g.keys, x ∈ xs) : g.Acyclic := by
  intro x hxx
  obtain ⟨y, hxy, -⟩ := Relation.TransGen.head'_iff.mp hxx
  exact h.not_transGen_self hn (hk x hxy.mem_keys) hxx

end ScriptAtlas.ModuleGraph
