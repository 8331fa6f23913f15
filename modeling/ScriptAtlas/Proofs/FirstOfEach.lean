import Mathlib.Data.List.Induction

/-! # The first member of each key

Lists are often searched for the first member that has some name or id. `firstOfEach` keeps these
members and no others, in their order: one for each key (`mem_map_firstOfEach`,
`nodup_map_firstOfEach`), the one that a search for the key finds (`mem_firstOfEach_iff`). -/

namespace ScriptAtlas

variable {α : Type} (key : α → String)

/-- The members before which no member of the list has their key. -/
def firstOfEach (xs : List α) : List α :=
  (xs.zipIdx.filter fun p => key p.1 ∉ (xs.take p.2).map key).map (·.1)

theorem firstOfEach_concat (xs : List α) (x : α) :
    firstOfEach key (xs ++ [x]) = firstOfEach key xs ++ if key x ∈ xs.map key then [] else [x] := by
  -- The members before a position of `xs` are the same in the longer list.
  have hbefore : (xs.zipIdx.filter fun p => key p.1 ∉ ((xs ++ [x]).take p.2).map key) =
      xs.zipIdx.filter fun p => key p.1 ∉ (xs.take p.2).map key := by
    refine List.filter_congr fun p hp => ?_
    have hlt : p.2 < xs.length := (List.mem_zipIdx' hp).1
    rw [List.take_append_of_le_length (Nat.le_of_lt hlt)]
  rw [firstOfEach, List.zipIdx_append, List.filter_append, hbefore, List.map_append]
  congr 1
  by_cases hx : key x ∈ xs.map key <;> simp [hx]

variable {key}

theorem firstOfEach_sublist (xs : List α) : (firstOfEach key xs).Sublist xs := by
  have hsublist := (xs.zipIdx.filter_sublist (p := fun p => key p.1 ∉ (xs.take p.2).map key)).map
    (·.1)
  rwa [List.zipIdx_map_fst] at hsublist

theorem mem_of_mem_firstOfEach {xs : List α} {x : α} (h : x ∈ firstOfEach key xs) : x ∈ xs :=
  (firstOfEach_sublist xs).subset h

theorem mem_map_firstOfEach {xs : List α} {k : String} :
    k ∈ (firstOfEach key xs).map key ↔ k ∈ xs.map key := by
  induction xs using List.reverseRecOn with
  | nil => rfl
  | append_singleton xs x ih =>
    rw [firstOfEach_concat, List.map_append, List.map_append, List.mem_append, ih]
    split
    · next hx =>
      have hlast : k ∈ [x].map key → k ∈ xs.map key := by
        intro hk
        obtain rfl : k = key x := by simpa using hk
        exact hx
      simpa using hlast
    · rw [List.mem_append]

theorem nodup_map_firstOfEach (key : α → String) (xs : List α) :
    ((firstOfEach key xs).map key).Nodup := by
  induction xs using List.reverseRecOn with
  | nil => exact List.nodup_nil
  | append_singleton xs x ih =>
    rw [firstOfEach_concat, List.map_append]
    split
    · simpa using ih
    · next hx =>
      have hnew : key x ∉ (firstOfEach key xs).map key := mt mem_map_firstOfEach.mp hx
      refine List.nodup_append.mpr ⟨ih, by simp, ?_⟩
      intro c hc d hd
      obtain rfl : d = key x := by simpa using hd
      exact ne_of_mem_of_not_mem hc hnew

/-- The first member of a key is the one that a search for the key finds. -/
theorem mem_firstOfEach_iff {xs : List α} {x : α} :
    x ∈ firstOfEach key xs ↔ xs.find? (key · = key x) = some x := by
  induction xs using List.reverseRecOn with
  | nil => simp [firstOfEach]
  | append_singleton xs y ih =>
    rw [firstOfEach_concat, List.mem_append, ih, List.find?_append]
    cases hfind : xs.find? (key · = key x) with
    | some z =>
      have hz : key z = key x := by simpa using List.find?_some hfind
      have hmem : key x ∈ xs.map key := hz ▸ List.mem_map_of_mem (List.mem_of_find?_eq_some hfind)
      constructor
      · rintro (h | h)
        · exact h
        · split at h
          · simp at h
          · next hy =>
            obtain rfl : x = y := by simpa using h
            exact absurd hmem hy
      · intro h
        exact Or.inl h
    | none =>
      have hnone : key x ∉ xs.map key := by
        simpa [List.find?_eq_none] using hfind
      by_cases hxy : key y = key x
      · rw [if_neg (hxy ▸ hnone)]
        simp [hxy, eq_comm]
      · have hne : x ≠ y := fun h => hxy (h ▸ rfl)
        split <;> simp [hxy, hne]

theorem firstOfEach_filter (p : String → Bool) (xs : List α) :
    firstOfEach key (xs.filter (p <| key ·)) = (firstOfEach key xs).filter (p <| key ·) := by
  induction xs using List.reverseRecOn with
  | nil => rfl
  | append_singleton xs x ih =>
    rw [List.filter_append, firstOfEach_concat, List.filter_append, ← ih]
    by_cases hp : p (key x)
    · have hkey : key x ∈ (xs.filter (p <| key ·)).map key ↔ key x ∈ xs.map key := by
        simp only [List.mem_map, List.mem_filter]
        constructor
        · rintro ⟨y, ⟨hy, -⟩, hyx⟩
          exact ⟨y, hy, hyx⟩
        · rintro ⟨y, hy, hyx⟩
          exact ⟨y, ⟨hy, by rw [hyx, hp]⟩, hyx⟩
      have hx : [x].filter (p <| key ·) = [x] := by simp [hp]
      rw [hx, firstOfEach_concat, if_congr hkey rfl rfl]
      split <;> simp [hp]
    · split <;> simp [hp]

/-- Members that keep their keys are the first ones as before. -/
theorem firstOfEach_map {β : Type} (key : β → String) (f : α → β) (xs : List α) :
    firstOfEach key (xs.map f) = (firstOfEach (key <| f ·) xs).map f := by
  induction xs using List.reverseRecOn with
  | nil => rfl
  | append_singleton xs x ih =>
    have hkeys : (xs.map f).map key = xs.map (key <| f ·) := List.map_map
    rw [List.map_append, List.map_singleton, firstOfEach_concat, firstOfEach_concat, ih, hkeys,
      List.map_append]
    split <;> rfl

/-- Behind a list only members under new keys count. -/
theorem firstOfEach_append (key : α → String) (xs ys : List α) :
    firstOfEach key (xs ++ ys) =
      firstOfEach key xs ++ (firstOfEach key ys).filter (key · ∉ xs.map key) := by
  induction ys using List.reverseRecOn with
  | nil => simp [firstOfEach]
  | append_singleton ys y ih =>
    have hor : key y ∈ (xs ++ ys).map key ↔ key y ∈ xs.map key ∨ key y ∈ ys.map key := by
      rw [List.map_append, List.mem_append]
    rw [← List.append_assoc, firstOfEach_concat, ih, firstOfEach_concat, List.filter_append,
      List.append_assoc, if_congr hor rfl rfl]
    by_cases hys : key y ∈ ys.map key
    · rw [if_pos (Or.inr hys), if_pos hys]
      rfl
    · rw [if_neg hys]
      by_cases hxs : key y ∈ xs.map key
      · rw [if_pos (Or.inl hxs), List.filter_cons_of_neg (by simpa using hxs), List.filter_nil]
      · rw [if_neg (not_or.mpr ⟨hxs, hys⟩), List.filter_cons_of_pos (by simpa using hxs),
          List.filter_nil]

/-- What the first members have depends on what all members have, in their order. -/
theorem filterMap_firstOfEach_congr {β γ δ : Type} {f : α → γ} {g : β → γ} {xs : List α}
    {ys : List β} (key : γ → String) (value : γ → Option δ) (h : xs.map f = ys.map g) :
    (firstOfEach (key <| f ·) xs).filterMap (value <| f ·) =
      (firstOfEach (key <| g ·) ys).filterMap (value <| g ·) := by
  have hmap {ε : Type} (f : ε → γ) (xs : List ε) :
      (firstOfEach (key <| f ·) xs).filterMap (value <| f ·) =
        (firstOfEach key (xs.map f)).filterMap value := by
    rw [firstOfEach_map, List.filterMap_map]
    rfl
  rw [hmap f, hmap g, h]

end ScriptAtlas
