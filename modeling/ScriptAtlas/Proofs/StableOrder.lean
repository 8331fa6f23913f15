import Mathlib.Data.List.Sort

/-! # Lists in descending order of a number

A list sorted by a number, the greatest first, keeps the members with the same number in the order
they had (`filter_key_descending`). The order by number and the order among equals determine a list
(`eq_of_filter_key_eq`), so that leaving members out before sorting or after it is the same
(`descending_filter`). A sorted list is given by the positions that its members had before
(`exists_order_descending`). What reaches a bound stands in front (`filter_le_prefix`). -/

namespace ScriptAtlas

variable {α : Type} {key : α → Nat} {xs ys : List α}

/-- The members in descending order of a number; equals keep their order. -/
def descending (key : α → Nat) (xs : List α) : List α := xs.mergeSort fun a b => key b ≤ key a

theorem descending_perm (key : α → Nat) (xs : List α) : (descending key xs).Perm xs :=
  List.mergeSort_perm _ _

/-! ### Sorting -/

theorem trans_ge_key (a b c : α) (hab : decide (key b ≤ key a) = true)
    (hbc : decide (key c ≤ key b) = true) : decide (key c ≤ key a) = true := by
  simp only [decide_eq_true_eq] at *
  omega

theorem total_ge_key (a b : α) :
    (decide (key b ≤ key a) || decide (key a ≤ key b)) = true := by
  simp only [Bool.or_eq_true, decide_eq_true_eq]
  omega

theorem pairwise_descending (key : α → Nat) (xs : List α) :
    (descending key xs).Pairwise fun a b => key b ≤ key a :=
  (List.pairwise_mergeSort trans_ge_key total_ge_key xs).imp of_decide_eq_true

/-- Members with the same number keep their order. -/
theorem filter_key_descending (key : α → Nat) (xs : List α) (k : Nat) :
    (descending key xs).filter (key · = k) = xs.filter (key · = k) := by
  have hequal : (xs.filter (key · = k)).Pairwise fun a b => decide (key b ≤ key a) = true := by
    refine List.pairwise_iff_forall_sublist.mpr fun {a b} hab => ?_
    have ha : key a = k := by simpa using (List.mem_filter.mp (hab.subset (by simp))).2
    have hb : key b = k := by simpa using (List.mem_filter.mp (hab.subset (by simp))).2
    simp [ha, hb]
  -- They are in order as they stand, so sorting keeps them as a part of the list.
  have hsub : (xs.filter (key · = k)).Sublist (descending key xs) :=
    List.sublist_mergeSort trans_ge_key total_ge_key hequal List.filter_sublist
  have hpart : (xs.filter (key · = k)).Sublist ((descending key xs).filter (key · = k)) := by
    simpa using hsub.filter (key · = k)
  have hlength := ((descending_perm key xs).filter (key · = k)).length_eq
  exact (hpart.eq_of_length hlength.symm).symm

/-- Members with the same number that follow each other after the sorting did so before. -/
theorem sublist_of_descending {a b : α} (h : [a, b].Sublist (descending key xs))
    (hkey : key b = key a) : [a, b].Sublist xs := by
  have hequal := h.filter (key · = key a)
  rw [filter_key_descending] at hequal
  have hpair : [a, b].filter (key · = key a) = [a, b] := by simp [hkey]
  rw [hpair] at hequal
  exact hequal.trans List.filter_sublist

/-! ### What determines the order -/

theorem key_le_of_filter_eq {a b : α} (hys : (b :: ys).Pairwise fun a b => key b ≤ key a)
    (h : (a :: xs).filter (key · = key a) = (b :: ys).filter (key · = key a)) :
    key a ≤ key b := by
  have ha : a ∈ (b :: ys).filter (key · = key a) := by
    rw [← h]
    simp
  rcases List.mem_cons.mp (List.mem_of_mem_filter ha) with rfl | ha
  · exact le_rfl
  · exact (List.pairwise_cons.mp hys).1 a ha

/-- Lists in descending order are equal if they have the same members of each number in the same
order. -/
theorem eq_of_filter_key_eq (hxs : xs.Pairwise fun a b => key b ≤ key a)
    (hys : ys.Pairwise fun a b => key b ≤ key a)
    (h : ∀ k, xs.filter (key · = k) = ys.filter (key · = k)) : xs = ys := by
  induction xs generalizing ys with
  | nil =>
    cases ys with
    | nil => rfl
    | cons b ys =>
      have hb := h (key b)
      simp at hb
  | cons a xs ih =>
    cases ys with
    | nil =>
      have ha := h (key a)
      simp at ha
    | cons b ys =>
      -- Both first members have the greatest number, and are the first with it.
      have hle : key a ≤ key b := key_le_of_filter_eq hys (h (key a))
      have hge : key b ≤ key a := key_le_of_filter_eq hxs (h (key b)).symm
      have hkey : key b = key a := le_antisymm hge hle
      obtain rfl : a = b := by
        have hfirst := h (key a)
        rw [List.filter_cons_of_pos (by simp), List.filter_cons_of_pos (by simpa using hkey)]
          at hfirst
        exact (List.cons.inj hfirst).1
      refine congrArg (a :: ·) (ih hxs.of_cons hys.of_cons fun k => ?_)
      by_cases hk : key a = k
      · have hrest := h k
        rw [List.filter_cons_of_pos (by simpa using hk),
          List.filter_cons_of_pos (by simpa using hk)] at hrest
        exact (List.cons.inj hrest).2
      · have hrest := h k
        rwa [List.filter_cons_of_neg (by simpa using hk),
          List.filter_cons_of_neg (by simpa using hk)] at hrest

theorem descending_map {β : Type} (key : α → Nat) (f : β → α) (xs : List β) :
    descending key (xs.map f) = (descending (key <| f ·) xs).map f := by
  refine eq_of_filter_key_eq (pairwise_descending key _)
    (List.pairwise_map.mpr (pairwise_descending (key <| f ·) xs)) fun k => ?_
  rw [filter_key_descending, List.filter_map, List.filter_map]
  exact congrArg (List.map f) (filter_key_descending (key <| f ·) xs k).symm

/-! ### Positions -/

/-- The sorted list by the positions that its members had: all of them, the greatest number first,
and among equals the first position first. -/
theorem exists_order_descending (key : α → Nat) (xs : List α) :
    ∃ order : List Nat, order.Perm (List.range xs.length) ∧
      (descending key xs).map some = order.map (xs[·]?) ∧
      order.Pairwise fun i j => ∀ a b, xs[i]? = some a → xs[j]? = some b →
        key b < key a ∨ key b = key a ∧ i < j := by
  have hsnd : xs.zipIdx.map (·.2) = List.range xs.length := by
    simp [List.range_eq_range']
  have hplace : ∀ p ∈ descending (key <| ·.1) xs.zipIdx, xs[p.2]? = some p.1 := fun p hp =>
    List.mem_zipIdx_iff_getElem?.mp ((descending_perm _ _).mem_iff.mp hp)
  refine ⟨(descending (key <| ·.1) xs.zipIdx).map (·.2), ?_, ?_, ?_⟩
  · rw [← hsnd]
    exact (descending_perm _ _).map _
  · have hfst : xs.zipIdx.map (·.1) = xs := by simp
    have hdescending := descending_map key (·.1) xs.zipIdx
    rw [hfst] at hdescending
    rw [hdescending, List.map_map, List.map_map]
    exact List.map_congr_left fun p hp => (hplace p hp).symm
  · refine List.pairwise_map.mpr (List.pairwise_iff_forall_sublist.mpr ?_)
    intro p q hpq a b ha hb
    obtain rfl : p.1 = a := Option.some.inj ((hplace p (hpq.subset (by simp))).symm.trans ha)
    obtain rfl : q.1 = b := Option.some.inj ((hplace q (hpq.subset (by simp))).symm.trans hb)
    have hle : key q.1 ≤ key p.1 :=
      List.pairwise_iff_forall_sublist.mp (pairwise_descending (fun p : α × Nat => key p.1) _) hpq
    rcases Nat.lt_or_eq_of_le hle with hlt | heq
    · exact Or.inl hlt
    · -- Positions ascend in the list as it was.
      have hbefore : [p.2, q.2].Sublist (List.range xs.length) := by
        rw [← hsnd]
        exact (sublist_of_descending hpq heq).map _
      exact Or.inr ⟨heq, List.pairwise_iff_forall_sublist.mp List.pairwise_lt_range hbefore⟩

/-! ### Leaving members out -/

theorem descending_filter (key : α → Nat) (p : α → Bool) (xs : List α) :
    descending key (xs.filter p) = (descending key xs).filter p := by
  refine eq_of_filter_key_eq (pairwise_descending key _) ((pairwise_descending key xs).filter p)
    fun k => ?_
  rw [filter_key_descending, List.filter_comm, List.filter_comm _ p (descending key xs),
    filter_key_descending]

/-- What reaches a bound stands in front. -/
theorem filter_le_prefix (h : xs.Pairwise fun a b => key b ≤ key a) (n : Nat) :
    xs.filter (n ≤ key ·) <+: xs := by
  induction xs with
  | nil => exact List.prefix_rfl
  | cons a xs ih =>
    obtain ⟨ha, hxs⟩ := List.pairwise_cons.mp h
    by_cases hn : n ≤ key a
    · rw [List.filter_cons_of_pos (by simpa using hn)]
      exact List.cons_prefix_cons.mpr ⟨rfl, ih hxs⟩
    · have hnone : (a :: xs).filter (n ≤ key ·) = [] := by
        refine List.filter_eq_nil_iff.mpr fun b hb => ?_
        rcases List.mem_cons.mp hb with rfl | hb
        · simpa using hn
        · have := ha b hb
          simp only [decide_eq_true_eq]
          omega
      rw [hnone]
      exact List.nil_prefix

/-- What is cut off behind has no greater number than what is left. -/
theorem key_le_of_mem_drop (h : xs.Pairwise fun a b => key b ≤ key a) {n : Nat} {a b : α}
    (ha : a ∈ xs.take n) (hb : b ∈ xs.drop n) : key b ≤ key a := by
  rw [← List.take_append_drop n xs] at h
  exact (List.pairwise_append.mp h).2.2 a ha b hb

end ScriptAtlas
