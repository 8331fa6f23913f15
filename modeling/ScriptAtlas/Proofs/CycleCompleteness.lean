import ScriptAtlas.Proofs.CycleSoundness

/-! # Every way round is broken

Not every cycle of a graph is found, but the last imports of those that are found meet them all: a
graph without them is acyclic (`acyclic_without_closing`). The modules in the order in which they
are left show this. When a module is left, each of its imports leads to a module that was left
before or is the last import of a cycle. -/

namespace ScriptAtlas.Cycle

open ModuleGraph

/-! ### Closing imports -/

/-- The last import on a way round. -/
def closing? (c : List String) : Option Edge :=
  match c.reverse with
  | y :: x :: _ => some ⟨x, y⟩
  | _ => none

/-- The last imports of some cycles. -/
def closing (cs : List (List String)) : List Edge := cs.filterMap closing?

theorem closing?_concat {l : List String} {x : String} (h : l.getLast? = some x) (y : String) :
    closing? (l ++ [y]) = some ⟨x, y⟩ := by
  obtain ⟨l, rfl⟩ := List.getLast?_eq_some_iff.mp h
  simp [closing?]

namespace Search

variable {g : ModuleGraph} {s s' : Search}

/-- The last import of a new cycle is the one looked at. -/
theorem Sound.closing?_close (h : Sound g s) {id t : String} {pending : List String}
    {stack : List Frame} {i : Nat} (hs : s.stack = ⟨id, t :: pending⟩ :: stack)
    (hi : s.position[t]? = some i) : closing? (s.path.toList.drop i ++ [t]) = some ⟨id, t⟩ := by
  refine closing?_concat ?_ t
  have hlt := (List.getElem?_eq_some_iff.mp ((h.position_iff t i).mp hi)).1
  rw [List.getLast?_drop, if_neg (by omega)]
  simp [h.path_eq, hs]

/-- An import that closes no cycle found so far. -/
def Kept (g : ModuleGraph) (s : Search) (x y : String) : Prop :=
  g.Imports x y ∧ ⟨x, y⟩ ∉ closing s.cycles.toList

/-! ### Modules that are open -/

/-- Every kept import of an open module is still to be looked at, or leads to a finished module or
to one further in. -/
def Covered (kept : String → String → Prop) (finished inner : List String) : List Frame → Prop
  | [] => True
  | f :: fs =>
    (∀ y, kept f.module y → y ∈ f.pending ∨ y ∈ finished ∨ y ∈ inner) ∧
      Covered kept finished (f.module :: inner) fs

theorem Covered.mono {kept kept' : String → String → Prop}
    {finished finished' inner inner' : List String} {fs : List Frame}
    (h : Covered kept finished inner fs) (hk : ∀ x y, kept' x y → kept x y)
    (hf : ∀ y, y ∈ finished ∨ y ∈ inner → y ∈ finished' ∨ y ∈ inner') :
    Covered kept' finished' inner' fs := by
  induction fs generalizing inner inner' with
  | nil => trivial
  | cons f fs ih =>
    refine ⟨fun y hy => (h.1 y (hk _ _ hy)).imp_right (hf y), ih h.2 ?_⟩
    intro y hy
    rw [List.mem_cons] at hy ⊢
    rcases hy with hy | rfl | hy
    · exact (hf y (Or.inl hy)).imp_right Or.inr
    · exact Or.inr (Or.inl rfl)
    · exact (hf y (Or.inr hy)).imp_right Or.inr

/-- `finished` lists the modules that were left, the last one first. -/
structure Ordered (g : ModuleGraph) (s : Search) (finished : List String) : Prop where
  sound : Sound g s
  nodup_finished : finished.Nodup
  visited_iff : ∀ x, x ∈ s.visited ↔ x ∈ s.stack.map (·.module) ∨ x ∈ finished
  not_mem_finished : ∀ x ∈ s.stack.map (·.module), x ∉ finished
  descending : Descending (Kept g s) finished
  covered : Covered (Kept g s) finished [] s.stack

variable {finished : List String}

theorem ordered_start (g : ModuleGraph) : Ordered g start [] :=
  ⟨sound_start g, List.nodup_nil, by simp [start], by simp, trivial, trivial⟩

/-- Leaving a module puts it before those that were left earlier. -/
theorem Ordered.leave (h : Ordered g s finished) {id : String} {stack : List Frame}
    (hs : s.stack = ⟨id, []⟩ :: stack) : Ordered g (s.leave id stack) (id :: finished) := by
  obtain ⟨hsound, hnodup, hvis, hnot, hdesc, hcov⟩ := h
  have hstack := hsound.nodup_stack
  simp only [hs, List.map_cons, List.nodup_cons] at hstack hvis hnot hcov
  refine ⟨hsound.leave hs, List.nodup_cons.mpr ⟨hnot id (by simp), hnodup⟩, ?_, ?_, ?_, ?_⟩
  · intro x
    simp only [Search.leave, hvis, List.mem_cons]
    tauto
  · intro x hx hmem
    rcases List.mem_cons.mp hmem with rfl | hmem
    · exact hstack.1 hx
    · exact hnot x (List.mem_cons_of_mem _ hx) hmem
  · exact ⟨fun y hy => by simpa using hcov.1 y hy, hdesc⟩
  · refine hcov.2.mono (fun _ _ hk => hk) fun y hy => ?_
    simp only [List.mem_cons, List.not_mem_nil, or_false] at hy ⊢
    exact hy.symm

/-- Looking at a target that closes a cycle or is finished. -/
theorem Ordered.take (h : Ordered g s finished) {id t : String} {pending : List String}
    {stack : List Frame} (hs : s.stack = ⟨id, t :: pending⟩ :: stack)
    {cycles : Array (List String)}
    (hsound : Sound g { s with cycles, stack := ⟨id, pending⟩ :: stack })
    (hsub : ∀ x y, Kept g { s with cycles, stack := ⟨id, pending⟩ :: stack } x y → Kept g s x y)
    (ht : Kept g { s with cycles, stack := ⟨id, pending⟩ :: stack } id t → t ∈ finished) :
    Ordered g { s with cycles, stack := ⟨id, pending⟩ :: stack } finished := by
  obtain ⟨-, hnodup, hvis, hnot, hdesc, hcov⟩ := h
  simp only [hs, List.map_cons] at hvis hnot hcov
  refine ⟨hsound, hnodup, hvis, hnot, hdesc.mono hsub, ?_, hcov.2.mono hsub fun _ hy => hy⟩
  intro y hy
  rcases hcov.1 y (hsub _ _ hy) with hp | hfin
  · rcases List.mem_cons.mp hp with rfl | hp
    · exact Or.inr (Or.inl (ht hy))
    · exact Or.inl hp
  · exact Or.inr hfin

/-- Entering a module, which is further in than those that are open. -/
theorem Ordered.enter {t : String} (hsound : Sound g (s.enter g t)) (hnodup : finished.Nodup)
    (hvis : ∀ x, x ∈ s.visited ↔ x ∈ s.stack.map (·.module) ∨ x ∈ finished)
    (hnot : ∀ x ∈ s.stack.map (·.module), x ∉ finished) (hdesc : Descending (Kept g s) finished)
    (ht : t ∉ s.visited) (hcov : Covered (Kept g s) finished [t] s.stack) :
    Ordered g (s.enter g t) finished := by
  refine ⟨hsound, hnodup, ?_, ?_, hdesc, fun y hy => Or.inl hy.1, hcov⟩
  · intro x
    simp only [Search.enter, Std.HashSet.mem_insert, beq_iff_eq, hvis, List.map_cons,
      List.mem_cons, eq_comm (a := t), or_assoc]
  · intro x hx hmem
    rcases List.mem_cons.mp hx with rfl | hx
    · exact ht ((hvis _).mpr (Or.inr hmem))
    · exact hnot x hx hmem

theorem Ordered.move (h : Ordered g s finished) (hm : Move g s s') :
    ∃ finished', Ordered g s' finished' := by
  have hsound := h.sound.move hm
  cases hm with
  | leave hs => exact ⟨_, h.leave hs⟩
  | @close id t pending stack i hs hi =>
    -- The import looked at is the last one of the new cycle, so it is not kept.
    have hclose := h.sound.closing?_close hs hi
    refine ⟨finished, h.take hs hsound (fun x y hk => ⟨hk.1, fun hc => hk.2 ?_⟩)
      fun hk => absurd ?_ hk.2⟩
    · simp only [closing, Array.toList_push, List.filterMap_append, List.mem_append]
      exact Or.inl hc
    · simp [closing, hclose]
  | @skip id t pending stack hs hp hv =>
    refine ⟨finished, h.take hs hsound (fun _ _ hk => hk) fun _ => ?_⟩
    have hstack : t ∉ s.stack.map (·.module) := by simp [h.sound.mem_stack_iff, hp]
    exact ((h.visited_iff t).mp hv).resolve_left hstack
  | @enter id t pending stack hs hp hv =>
    obtain ⟨-, hnodup, hvis, hnot, hdesc, hcov⟩ := h
    simp only [hs, List.map_cons] at hvis hnot hcov
    refine ⟨finished, .enter hsound hnodup hvis hnot hdesc hv ⟨fun y hy => ?_, ?_⟩⟩
    · rcases hcov.1 y hy with hp | hfin
      · rcases List.mem_cons.mp hp with rfl | hp
        · exact Or.inr (Or.inr List.mem_cons_self)
        · exact Or.inl hp
      · exact Or.inr (hfin.imp_right fun hnil => absurd hnil List.not_mem_nil)
    · refine hcov.2.mono (fun _ _ hk => hk) fun y hy => ?_
      simp only [List.mem_cons, List.not_mem_nil, or_false] at hy ⊢
      tauto

theorem exists_ordered_searchAll (g : ModuleGraph) :
    (∃ finished, Ordered g (searchAll g) finished) ∧ (searchAll g).stack = [] := by
  refine searchAll_induction (P := fun s => ∃ finished, Ordered g s finished)
    (fun s s' ⟨_, h⟩ hm => h.move hm) ?_ ⟨[], ordered_start g⟩
  rintro s root ⟨finished, h⟩ hs hv
  refine ⟨finished, .enter (h.sound.enter hv (by simp [hs])) h.nodup_finished h.visited_iff
    h.not_mem_finished h.descending hv ?_⟩
  rw [hs]
  trivial

end Search

/-! ### The graph without closing imports -/

theorem acyclic_without_closing (g : ModuleGraph) :
    (g.without (closing (cycles g))).Acyclic := by
  obtain ⟨⟨finished, h⟩, hs⟩ := Search.exists_ordered_searchAll g
  refine acyclic_of_descending (h.descending.mono fun x y hxy => imports_without.mp hxy)
    h.nodup_finished fun x hx => ?_
  -- At the end no module is open, so all that were visited are finished.
  have hkey : x ∈ g.keys := by simpa [keys, without] using hx
  have hvis := (h.visited_iff x).mp (Search.mem_visited_searchAll hkey)
  simpa [hs] using hvis

theorem acyclic_of_cycles_eq_nil {g : ModuleGraph} (h : cycles g = []) : g.Acyclic := by
  intro x hx
  have hsub : g.Imports ≤ (g.without (closing (cycles g))).Imports := fun a b hab =>
    imports_without.mpr ⟨hab, by simp [h, closing]⟩
  exact acyclic_without_closing g x (Relation.TransGen.mono hsub x x hx)

/-- **The search is complete**: without the last imports of the cycles found no cycle is left, and
none is found exactly if there is none. -/
theorem cycles_complete (g : ModuleGraph) :
    (g.without (closing (cycles g))).Acyclic ∧ (cycles g = [] ↔ g.Acyclic) := by
  refine ⟨acyclic_without_closing g, acyclic_of_cycles_eq_nil, fun hg => ?_⟩
  refine List.eq_nil_iff_forall_not_mem.mpr fun c hc => ?_
  exact ((Search.sound_searchAll g).isCycle c hc).not_acyclic hg

end ScriptAtlas.Cycle
