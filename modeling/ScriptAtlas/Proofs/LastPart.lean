import Mathlib.Data.List.TakeWhile
import ScriptAtlas.Text.Slice

/-! # What stands behind the last separator

Base names and extensions are what follows the last occurrence of a separator, or the whole text if
there is none (`afterLast_eq_iff`). An extension has something before its dot
(`behindLast?_eq_some_iff`). -/

namespace ScriptAtlas

namespace Text

variable {α : Type} [DecidableEq α] {sep : α} {cs part : List α}

theorem not_mem_afterLast (sep : α) (cs : List α) : sep ∉ afterLast sep cs := by
  intro h
  rw [afterLast, List.mem_reverse] at h
  simpa using List.mem_takeWhile_imp h

theorem afterLast_of_not_mem (h : sep ∉ cs) : afterLast sep cs = cs := by
  unfold afterLast
  rw [List.takeWhile_eq_self_iff.mpr, List.reverse_reverse]
  intro c hc
  have hne : c ≠ sep := fun heq => h (heq ▸ List.mem_reverse.mp hc)
  simpa using hne

theorem afterLast_append (h : sep ∉ cs) (before : List α) :
    afterLast sep (before ++ sep :: cs) = cs := by
  unfold afterLast
  rw [List.reverse_append, List.reverse_cons, List.append_assoc, List.takeWhile_append_of_pos]
  · simp
  · intro c hc
    have hne : c ≠ sep := fun heq => h (heq ▸ List.mem_reverse.mp hc)
    simpa using hne

theorem eq_afterLast_or (sep : α) (cs : List α) :
    cs = afterLast sep cs ∨ ∃ before, cs = before ++ sep :: afterLast sep cs := by
  by_cases h : sep ∈ cs
  · obtain ⟨after, before, hcs, hafter⟩ := List.eq_append_cons_of_mem (List.mem_reverse.mpr h)
    obtain rfl : cs = before.reverse ++ sep :: after.reverse := by
      rw [← List.reverse_reverse cs, hcs]
      simp
    exact Or.inr ⟨before.reverse, by rw [afterLast_append (by simpa using hafter)]⟩
  · exact Or.inl (afterLast_of_not_mem h).symm

theorem afterLast_eq_iff :
    afterLast sep cs = part ↔ sep ∉ part ∧ (cs = part ∨ ∃ before, cs = before ++ sep :: part) := by
  constructor
  · rintro rfl
    exact ⟨not_mem_afterLast sep cs, eq_afterLast_or sep cs⟩
  · rintro ⟨hpart, rfl | ⟨before, rfl⟩⟩
    · exact afterLast_of_not_mem hpart
    · exact afterLast_append hpart before

theorem afterLast_append_of_not_mem (h : sep ∉ part) :
    afterLast sep (cs ++ part) = afterLast sep cs ++ part := by
  refine afterLast_eq_iff.mpr ⟨by simp [h, not_mem_afterLast], ?_⟩
  rcases eq_afterLast_or sep cs with hcs | ⟨before, hcs⟩
  · exact .inl (by rw [← hcs])
  · refine .inr ⟨before, ?_⟩
    rw [← List.cons_append, ← List.append_assoc, ← hcs]

/-- What does not open the text has something before its separator. -/
theorem behindLast?_eq_some_iff :
    behindLast? sep cs = some part ↔
      sep ∉ part ∧ ∃ before, before ≠ [] ∧ cs = before ++ sep :: part := by
  unfold behindLast?
  rw [Option.ite_none_right_eq_some, Option.some.injEq]
  constructor
  · rintro ⟨hlength, hpart⟩
    obtain ⟨hsep, rfl | ⟨before, rfl⟩⟩ := afterLast_eq_iff.mp hpart
    · rw [afterLast_of_not_mem hsep] at hlength
      omega
    · refine ⟨hsep, before, ?_, rfl⟩
      rintro rfl
      rw [afterLast_append hsep, List.nil_append, List.length_cons] at hlength
      omega
  · rintro ⟨hsep, before, hbefore, rfl⟩
    have hpos : 0 < before.length := List.length_pos_iff.mpr hbefore
    rw [afterLast_append hsep, List.length_append, List.length_cons]
    exact ⟨by omega, rfl⟩

end Text

end ScriptAtlas
