import Mathlib.Data.List.Rotate
import ScriptAtlas.Proofs.CycleCompleteness

/-! # No cycle is found twice

The search looks at each of the imports once, and then enters a module by it, closes a cycle with it
or passes it over. So an import by which a module was entered closes no cycle, and none closes two.
All imports of a cycle but the last one lie on the path, where each module was entered by the import
before it. Hence the last import of a cycle lies on no other cycle that is found, and no two cycles
pass the same imports (`cycles_pairwise_distinct`). -/

namespace ScriptAtlas.Cycle

open ModuleGraph

/-! ### Imports along a list of modules -/

/-- The imports from each module of a list to the next one. -/
def links (l : List String) : List Edge := List.zipWith Edge.mk l l.tail

theorem links_cons_cons (a b : String) (l : List String) :
    links (a :: b :: l) = ⟨a, b⟩ :: links (b :: l) := rfl

theorem mem_links {x y : String} {l : List String} : ⟨x, y⟩ ∈ links l ↔ [x, y] <:+: l := by
  induction l with
  | nil => simp [links]
  | cons a l ih =>
    rw [List.infix_cons_iff]
    cases l with
    | nil => simp [links]
    | cons b l =>
      rw [links_cons_cons, List.mem_cons, ih]
      simp [List.cons_prefix_cons]

theorem links_subset {l l' : List String} (h : l <:+: l') : links l ⊆ links l' := by
  rintro ⟨x, y⟩ he
  exact mem_links.mpr ((mem_links.mp he).trans h)

theorem links_concat {l : List String} {x : String} (h : l.getLast? = some x) (y : String) :
    links (l ++ [y]) = links l ++ [⟨x, y⟩] := by
  induction l with
  | nil => simp at h
  | cons a l ih =>
    cases l with
    | nil =>
      obtain rfl : a = x := by simpa using h
      rfl
    | cons b l =>
      have ih := ih (by simpa using h)
      rw [List.cons_append] at ih
      rw [List.cons_append, List.cons_append, links_cons_cons, links_cons_cons, ih,
        List.cons_append]

/-- The closing import of a way round is the last one along it. -/
theorem exists_closing {c : List String} (h : 2 ≤ c.length) :
    ∃ e, closing? c = some e ∧ links c = links c.dropLast ++ [e] := by
  have hc : c ≠ [] := by
    rintro rfl
    simp at h
  have hinit : c.dropLast ≠ [] := by
    intro hnil
    have hlen : c.dropLast.length = c.length - 1 := List.length_dropLast
    rw [hnil, List.length_nil] at hlen
    omega
  have hlast := List.getLast?_eq_some_getLast hinit
  have hclosing := closing?_concat hlast (c.getLast hc)
  have hlinks := links_concat hlast (c.getLast hc)
  rw [List.dropLast_append_getLast hc] at hclosing hlinks
  exact ⟨_, hclosing, hlinks⟩

/-! ### Rotations -/

variable {g : ModuleGraph} {c d : List String}

/-- On a way round the first module follows the last one. -/
theorem links_of_isCycle (h : g.IsCycle c) :
    links c = List.zipWith Edge.mk c.dropLast (c.dropLast.rotate 1) := by
  obtain ⟨x, l, rfl⟩ : ∃ x l, c = x :: l ++ [x] := by
    match c, h with
    | [], h => simpa using h.two_le_length
    | x :: l, h =>
      have hl : l ≠ [] := by
        rintro rfl
        simpa using h.two_le_length
      have hlast : l.getLast hl = x := by
        have := h.head?_eq_getLast?
        rw [List.getLast?_cons_of_ne_nil hl, List.getLast?_eq_some_getLast hl] at this
        simpa using this.symm
      refine ⟨x, l.dropLast, ?_⟩
      rw [List.cons_append, ← hlast, List.dropLast_append_getLast hl]
  -- Nothing follows the last module of the list, so its pair is missing on the left.
  have hlen : (x :: l).length = (l ++ [x]).length := by simp
  have hzip : List.zipWith Edge.mk (x :: l ++ [x]) (l ++ [x] ++ []) =
      List.zipWith Edge.mk (x :: l) (l ++ [x]) ++ List.zipWith Edge.mk [x] [] :=
    List.zipWith_append hlen
  rw [List.zipWith_nil_right, List.append_nil, List.append_nil] at hzip
  rw [List.dropLast_concat, List.rotate_cons_succ, List.rotate_zero]
  exact hzip

theorem links_isRotated (hc : g.IsCycle c) (hd : g.IsCycle d)
    (h : c.dropLast.IsRotated d.dropLast) : (links c).IsRotated (links d) := by
  obtain ⟨n, hn⟩ := h
  refine ⟨n, ?_⟩
  rw [links_of_isCycle hc, links_of_isCycle hd, List.zipWith_rotate_distrib, hn,
    List.rotate_rotate, Nat.add_comm, ← List.rotate_rotate, hn]
  rw [List.length_rotate]

/-! ### Imports that were looked at -/

namespace Search

variable {s s' : Search}

/-- An import that was looked at: its module was entered, and it is not among those left. -/
def Seen (s : Search) (e : Edge) : Prop :=
  e.source ∈ s.visited ∧ ∀ f ∈ s.stack, f.module = e.source → e.target ∉ f.pending

variable {id t : String} {pending : List String} {stack : List Frame} {e : Edge}

theorem not_seen_of_pending (hs : s.stack = ⟨id, t :: pending⟩ :: stack) : ¬ s.Seen ⟨id, t⟩ :=
  fun h => h.2 ⟨id, t :: pending⟩ (by simp [hs]) rfl List.mem_cons_self

theorem Seen.take (h : s.Seen e) (hs : s.stack = ⟨id, t :: pending⟩ :: stack)
    (cycles : Array (List String)) :
    Search.Seen { s with cycles, stack := ⟨id, pending⟩ :: stack } e := by
  refine ⟨h.1, fun f hf hsource => ?_⟩
  rcases List.mem_cons.mp hf with rfl | hf
  · have htarget := h.2 ⟨id, t :: pending⟩ (by simp [hs]) hsource
    exact fun hp => htarget (List.mem_cons_of_mem t hp)
  · exact h.2 f (by simp [hs, hf]) hsource

/-- The import taken has been looked at: its module is open only once and imports the target only
once. -/
theorem Sound.seen_taken (h : Sound g s) (hs : s.stack = ⟨id, t :: pending⟩ :: stack)
    (cycles : Array (List String)) :
    Search.Seen { s with cycles, stack := ⟨id, pending⟩ :: stack } ⟨id, t⟩ := by
  refine ⟨h.mem_visited id (by simp [hs]), fun f hf hsource => ?_⟩
  rcases List.mem_cons.mp hf with rfl | hf
  · have hsuffix := h.pending_suffix ⟨id, t :: pending⟩ (by simp [hs])
    have hnodup := (targets_nodup g id).sublist hsuffix.sublist
    exact (List.nodup_cons.mp hnodup).1
  · have hnodup := h.nodup_stack
    rw [hs, List.map_cons, List.nodup_cons] at hnodup
    have hmem : f.module ∈ stack.map (·.module) := List.mem_map_of_mem hf
    rw [hsource] at hmem
    exact absurd hmem hnodup.1

theorem Seen.leave (h : s.Seen e) (hs : s.stack = ⟨id, pending⟩ :: stack) :
    (s.leave id stack).Seen e :=
  ⟨h.1, fun f hf => h.2 f (by rw [hs]; exact List.mem_cons_of_mem _ hf)⟩

theorem Seen.enter (h : s.Seen e) (ht : t ∉ s.visited) : (s.enter g t).Seen e := by
  refine ⟨Std.HashSet.mem_insert.mpr (Or.inr h.1), fun f hf hsource => ?_⟩
  rcases List.mem_cons.mp hf with rfl | hf
  · obtain rfl : t = e.source := hsource
    exact absurd h.1 ht
  · exact h.2 f hf hsource

/-! ### Entering imports and closing imports -/

/-- `entered` lists the imports by which modules were entered. -/
structure Classified (g : ModuleGraph) (s : Search) (entered : List Edge) : Prop where
  sound : Sound g s
  seen_entered : ∀ e ∈ entered, s.Seen e
  seen_closing : ∀ c ∈ s.cycles.toList, ∀ e, closing? c = some e → s.Seen e
  not_closing : ∀ c ∈ s.cycles.toList, ∀ e, closing? c = some e → e ∉ entered
  pairwise_closing : s.cycles.toList.Pairwise fun c d => closing? c ≠ closing? d
  links_path : links s.path.toList ⊆ entered
  links_cycle : ∀ c ∈ s.cycles.toList, links c.dropLast ⊆ entered

variable {entered : List Edge}

theorem classified_start (g : ModuleGraph) : Classified g start [] := by
  refine ⟨sound_start g, ?_, ?_, ?_, ?_, ?_, ?_⟩ <;> simp [start, links]

theorem Classified.leave (h : Classified g s entered) (hs : s.stack = ⟨id, []⟩ :: stack) :
    Classified g (s.leave id stack) entered := by
  refine ⟨h.sound.leave hs, fun e he => (h.seen_entered e he).leave hs,
    fun c hc e he => (h.seen_closing c hc e he).leave hs, h.not_closing, h.pairwise_closing, ?_,
    h.links_cycle⟩
  have hinfix : s.path.pop.toList <:+: s.path.toList := by
    rw [Array.toList_pop]
    exact (List.dropLast_prefix _).isInfix
  exact fun e he => h.links_path (links_subset hinfix he)

/-- The import looked at closes a cycle. It was not seen before, so it is none of those by which
modules were entered, and it closed no cycle before. -/
theorem Classified.close (h : Classified g s entered) {i : Nat}
    (hs : s.stack = ⟨id, t :: pending⟩ :: stack) (hi : s.position[t]? = some i) :
    Classified g
      { s with
        stack := ⟨id, pending⟩ :: stack
        cycles := s.cycles.push (s.path.toList.drop i ++ [t]) } entered := by
  have hclosing := h.sound.closing?_close hs hi
  have hunseen := not_seen_of_pending hs
  have hmem : ∀ c ∈ (s.cycles.push (s.path.toList.drop i ++ [t])).toList,
      c ∈ s.cycles.toList ∨ c = s.path.toList.drop i ++ [t] := by
    intro c hc
    rwa [Array.toList_push, List.mem_append, List.mem_singleton] at hc
  refine ⟨h.sound.move (.close hs hi), fun e he => (h.seen_entered e he).take hs _, ?_, ?_, ?_,
    h.links_path, ?_⟩
  · intro c hc e he
    rcases hmem c hc with hc | rfl
    · exact (h.seen_closing c hc e he).take hs _
    · rw [hclosing, Option.some.injEq] at he
      exact he ▸ h.sound.seen_taken hs _
  · intro c hc e he
    rcases hmem c hc with hc | rfl
    · exact h.not_closing c hc e he
    · rw [hclosing, Option.some.injEq] at he
      exact fun hentered => hunseen (he ▸ h.seen_entered e hentered)
  · rw [Array.toList_push, List.pairwise_append]
    refine ⟨h.pairwise_closing, List.pairwise_singleton _ _, fun c hc d hd => ?_⟩
    rw [List.mem_singleton.mp hd, hclosing]
    exact fun he => hunseen (h.seen_closing c hc _ he)
  · intro c hc
    rcases hmem c hc with hc | rfl
    · exact h.links_cycle c hc
    · rw [List.dropLast_concat]
      have hinfix := (List.drop_suffix i s.path.toList).isInfix
      exact fun e he => h.links_path (links_subset hinfix he)

theorem Classified.skip (h : Classified g s entered) (hs : s.stack = ⟨id, t :: pending⟩ :: stack) :
    Classified g { s with stack := ⟨id, pending⟩ :: stack } entered :=
  ⟨h.sound.take hs, fun e he => (h.seen_entered e he).take hs _,
    fun c hc e he => (h.seen_closing c hc e he).take hs _, h.not_closing, h.pairwise_closing,
    h.links_path, h.links_cycle⟩

/-- A module is entered by the import looked at, which closed no cycle before. -/
theorem Classified.enter (h : Classified g s entered) (hs : s.stack = ⟨id, t :: pending⟩ :: stack)
    (hp : s.position[t]? = none) (hv : t ∉ s.visited) :
    Classified g (Search.enter g { s with stack := ⟨id, pending⟩ :: stack } t)
      (⟨id, t⟩ :: entered) := by
  have hunseen := not_seen_of_pending hs
  refine ⟨h.sound.move (.enter hs hp hv), ?_, ?_, ?_, h.pairwise_closing, ?_, ?_⟩
  · intro e he
    rcases List.mem_cons.mp he with rfl | he
    · exact (h.sound.seen_taken hs s.cycles).enter hv
    · exact ((h.seen_entered e he).take hs s.cycles).enter hv
  · exact fun c hc e he => ((h.seen_closing c hc e he).take hs s.cycles).enter hv
  · intro c hc e he hmem
    rcases List.mem_cons.mp hmem with rfl | hmem
    · exact hunseen (h.seen_closing c hc _ he)
    · exact h.not_closing c hc e he hmem
  · have hlast : s.path.toList.getLast? = some id := by simp [h.sound.path_eq, hs]
    have hlinks : links (s.path.push t).toList = links s.path.toList ++ [⟨id, t⟩] := by
      rw [Array.toList_push, links_concat hlast]
    intro e he
    rw [Search.enter, hlinks, List.mem_append, List.mem_singleton] at he
    rcases he with he | rfl
    · exact List.mem_cons_of_mem _ (h.links_path he)
    · exact List.mem_cons_self
  · exact fun c hc e he => List.mem_cons_of_mem _ (h.links_cycle c hc he)

theorem Classified.move (h : Classified g s entered) (hm : Move g s s') :
    ∃ entered', Classified g s' entered' := by
  cases hm with
  | leave hs => exact ⟨_, h.leave hs⟩
  | close hs hi => exact ⟨_, h.close hs hi⟩
  | skip hs hp hv => exact ⟨_, h.skip hs⟩
  | enter hs hp hv => exact ⟨_, h.enter hs hp hv⟩

/-- A module entered with an empty path is entered by no import. -/
theorem Classified.root (h : Classified g s entered) (hs : s.stack = []) (hv : t ∉ s.visited) :
    Classified g (s.enter g t) entered := by
  have hpath : s.path.toList = [] := by simp [h.sound.path_eq, hs]
  refine ⟨h.sound.enter hv (by simp [hs]), fun e he => (h.seen_entered e he).enter hv,
    fun c hc e he => (h.seen_closing c hc e he).enter hv, h.not_closing, h.pairwise_closing, ?_,
    h.links_cycle⟩
  rw [Search.enter, Array.toList_push, hpath]
  exact List.nil_subset _

theorem exists_classified_searchAll (g : ModuleGraph) :
    ∃ entered, Classified g (searchAll g) entered :=
  (searchAll_induction (P := fun s => ∃ entered, Classified g s entered)
    (fun _ _ ⟨_, h⟩ hm => h.move hm) (fun _ _ ⟨entered, h⟩ hs hv => ⟨entered, h.root hs hv⟩)
    ⟨[], classified_start g⟩).1

end Search

/-! ### The cycles found -/

/-- The last import of a cycle lies on no other one: there it would be the last import, too, or one
by which a module was entered. -/
theorem Search.Classified.not_mem_links {s : Search} {entered : List Edge}
    (h : s.Classified g entered) (hc : c ∈ s.cycles.toList) (hd : d ∈ s.cycles.toList)
    (hne : closing? c ≠ closing? d) {e : Edge} (he : closing? c = some e) : e ∉ links d := by
  obtain ⟨e', he', hlinks⟩ := exists_closing (h.sound.isCycle d hd).two_le_length
  rw [hlinks, List.mem_append, List.mem_singleton]
  rintro (hmem | rfl)
  · exact h.not_closing c hc e he (h.links_cycle d hd hmem)
  · exact hne (he.trans he'.symm)

/-- **No cycle is found twice**: the cycles have pairwise distinct last imports, no two of them pass
the same imports, and so none is another one begun at a different module. -/
theorem cycles_pairwise_distinct (g : ModuleGraph) :
    (∀ c ∈ cycles g, (closing? c).isSome) ∧
    (cycles g).Pairwise (fun c d => closing? c ≠ closing? d) ∧
    (cycles g).Pairwise fun c d =>
      ¬ (∀ e, e ∈ links c ↔ e ∈ links d) ∧ ¬ c.dropLast.IsRotated d.dropLast := by
  obtain ⟨entered, h⟩ := Search.exists_classified_searchAll g
  refine ⟨fun c hc => ?_, h.pairwise_closing, h.pairwise_closing.imp_of_mem ?_⟩
  · obtain ⟨e, he, -⟩ := exists_closing (h.sound.isCycle c hc).two_le_length
    simp [he]
  · intro c d hc hd hne
    obtain ⟨e, he, hlinks⟩ := exists_closing (h.sound.isCycle c hc).two_le_length
    have hec : e ∈ links c := by simp [hlinks]
    have hed : e ∉ links d := h.not_mem_links hc hd hne he
    refine ⟨fun hsame => hed ((hsame e).mp hec), fun hrot => hed ?_⟩
    have hlinks := links_isRotated (h.sound.isCycle c hc) (h.sound.isCycle d hd) hrot
    exact hlinks.mem_iff.mp hec

end ScriptAtlas.Cycle
