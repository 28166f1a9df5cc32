import Mathlib.Data.List.Basic

/-!
# Vectors as lists

Reads after a write, and the length after a change of size.
-/

namespace CodeC.Library

variable {α : Type}

/-- Reading any position after a write to one -/
lemma getD_set (a : List α) (i j : ℕ) (x d : α) :
    (a.set i x).getD j d = if i = j ∧ i < a.length then x else a.getD j d := by
  rw [List.getD_eq_getElem?_getD, List.getElem?_set, List.getD_eq_getElem?_getD]
  by_cases hij : i = j
  · subst hij
    by_cases hi : i < a.length
    · rw [if_pos rfl, if_pos hi, if_pos ⟨rfl, hi⟩, Option.getD_some]
    · rw [if_pos rfl, if_neg hi, if_neg fun h => hi h.2, List.getElem?_eq_none (Nat.le_of_not_lt hi)]
  · rw [if_neg hij, if_neg fun h => hij h.1]

/-- A vector that is filled from the front: one more element -/
lemma take_succ_set {a : List α} {i : ℕ} (hi : i < a.length) (b : α) :
    (a.set i b).take (i + 1) = a.take i ++ [b] := by
  rw [List.set_eq_take_append_cons_drop, if_pos hi]
  have hlen : (a.take i).length = i := by
    rw [List.length_take]
    omega
  rw [List.take_append, hlen, List.take_of_length_le (by omega)]
  simp

/-- Cut off or filled up to the length `n` -/
lemma length_take_append_replicate (a : List α) (n : ℕ) (x : α) :
    (a.take n ++ List.replicate (n - a.length) x).length = n := by
  rw [List.length_append, List.length_take, List.length_replicate]
  omega

/-- What is kept of a vector that is cut off or filled up to the length `n` -/
lemma getD_take_append_replicate (a : List α) (n i : ℕ) (x : α) :
    (a.take n ++ List.replicate (n - a.length) x).getD i x = if i < n then a.getD i x else x := by
  rw [List.getD_eq_getElem?_getD, List.getD_eq_getElem?_getD, List.getElem?_append, List.length_take]
  by_cases hi : i < min n a.length
  · rw [if_pos hi, if_pos (by omega), List.getElem?_take_of_lt (by omega)]
  · rw [if_neg hi, List.getElem?_replicate]
    by_cases hn : i < n
    · rw [if_pos hn, List.getElem?_eq_none (by omega)]
      split <;> rfl
    · rw [if_neg hn]
      split <;> rfl

end CodeC.Library
