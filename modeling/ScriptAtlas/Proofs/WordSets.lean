import Mathlib.Data.List.Sort
import Mathlib.Data.String.Basic
import ScriptAtlas.Function.Query

/-! # Words in ascending order

A set of words is kept as a list in ascending order without repetition (`pairwise_wordSet`), with the
words that were put in (`mem_wordSet`). -/

namespace ScriptAtlas.Function

variable {ws : List String} {k : String}

theorem mem_insertWord {w : String} : k ∈ insertWord w ws ↔ k = w ∨ k ∈ ws := by
  induction ws with
  | nil => simp [insertWord]
  | cons v ws ih =>
    unfold insertWord
    split
    · next heq => simp [heq]
    · split
      · exact List.mem_cons
      · rw [List.mem_cons, ih, List.mem_cons]
        tauto

theorem pairwise_insertWord (w : String) (h : ws.Pairwise (· < ·)) :
    (insertWord w ws).Pairwise (· < ·) := by
  induction ws with
  | nil => simp [insertWord]
  | cons v ws ih =>
    obtain ⟨hv, hws⟩ := List.pairwise_cons.mp h
    unfold insertWord
    split
    · exact h
    · next hne =>
      split
      · next hlt =>
        refine List.pairwise_cons.mpr ⟨fun u hu => ?_, h⟩
        rcases List.mem_cons.mp hu with rfl | hu
        · exact hlt
        · exact hlt.trans (hv u hu)
      · next hnlt =>
        have hgt : v < w := (lt_or_gt_of_ne hne).resolve_left hnlt
        refine List.pairwise_cons.mpr ⟨fun u hu => ?_, ih hws⟩
        rcases mem_insertWord.mp hu with rfl | hu
        · exact hgt
        · exact hv u hu

theorem mem_wordSet : k ∈ wordSet ws ↔ k ∈ ws := by
  unfold wordSet
  induction ws with
  | nil => simp
  | cons w ws ih => rw [List.foldr_cons, mem_insertWord, ih, List.mem_cons]

theorem pairwise_wordSet (ws : List String) : (wordSet ws).Pairwise (· < ·) := by
  unfold wordSet
  induction ws with
  | nil => exact List.Pairwise.nil
  | cons w ws ih => exact pairwise_insertWord w ih

/-- Words in ascending order are a set already. -/
theorem wordSet_eq_self (h : ws.Pairwise (· < ·)) : wordSet ws = ws :=
  (pairwise_wordSet ws).eq_of_mem_iff h fun _ => mem_wordSet

end ScriptAtlas.Function
