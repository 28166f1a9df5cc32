import Mathlib.Data.List.Basic

/-!
# Completing a list to a palindrome

When a list starts with a palindrome, the reverse of the rest in front of the list makes it a
palindrome. The longest such start gives the shortest palindrome that ends with the list.
-/

namespace CodeC.Library

variable {α : Type} {s t : List α} {m : ℕ}

lemma reverse_complete (h : (s.take m).reverse = s.take m) :
    ((s.drop m).reverse ++ s).reverse = (s.drop m).reverse ++ s := by
  calc ((s.drop m).reverse ++ s).reverse = s.reverse ++ s.drop m := by
        rw [List.reverse_append, List.reverse_reverse]
    _ = (s.take m ++ s.drop m).reverse ++ s.drop m := by rw [List.take_append_drop]
    _ = (s.drop m).reverse ++ (s.take m ++ s.drop m) := by
        rw [List.reverse_append, h, List.append_assoc]
    _ = (s.drop m).reverse ++ s := by rw [List.take_append_drop]

/-- What a short list in front of `s` does not mirror is a palindrome. -/
lemma reverse_take_of_reverse_append {r : List α} (h : (r ++ s).reverse = r ++ s)
    (hlen : r.length ≤ s.length) :
    (s.take (s.length - r.length)).reverse = s.take (s.length - r.length) := by
  rw [List.reverse_append] at h
  have hpre : s.reverse <+: r ++ s := ⟨r.reverse, h⟩
  obtain ⟨x, hx⟩ : r <+: s.reverse :=
    List.prefix_of_prefix_length_le (List.prefix_append r s) hpre (by simpa)
  have hs : s = x.reverse ++ r.reverse := by
    rw [← List.reverse_append, hx, List.reverse_reverse]
  have hs' : s = x ++ r.reverse := by
    rw [← hx, List.append_assoc] at h
    exact (List.append_cancel_left h).symm
  have hpal : x.reverse = x := List.append_cancel_right (hs.symm.trans hs')
  have htake : s.take (s.length - r.length) = x := by
    conv_lhs => rw [hs']
    simp
  rw [htake, hpal]

/-- A palindrome that ends with `s` is at least as long as the completion at the longest
palindrome that `s` starts with. -/
theorem length_complete_le (hmax : ∀ k, m < k → k ≤ s.length → (s.take k).reverse ≠ s.take k)
    (ht : t.reverse = t) (hsuffix : s <:+ t) :
    ((s.drop m).reverse ++ s).length ≤ t.length := by
  obtain ⟨r, rfl⟩ := hsuffix
  rw [List.length_append, List.length_append, List.length_reverse, List.length_drop]
  by_contra hshort
  have hpal := reverse_take_of_reverse_append ht (by omega)
  exact hmax (s.length - r.length) (by omega) (by omega) hpal

/-- The palindromes are the lists with equal letters in mirrored places. -/
lemma reverse_take_succ_iff {i : ℕ} (hi : i < s.length) :
    (s.take (i + 1)).reverse = s.take (i + 1) ↔ ∀ j ≤ i, s[j]? = s[i - j]? := by
  have hlen : (s.take (i + 1)).length = i + 1 := by
    rw [List.length_take]
    omega
  have hreverse : ∀ j ≤ i, (s.take (i + 1)).reverse[j]? = s[i - j]? := by
    intro j hj
    rw [List.getElem?_reverse (by omega), hlen, List.getElem?_take_of_lt (by omega)]
    congr 1
  constructor
  · intro h j hj
    rw [← hreverse j hj, h, List.getElem?_take_of_lt (by omega)]
  · intro h
    refine List.ext_getElem? fun j => ?_
    rcases Nat.lt_or_ge i j with hij | hji
    · rw [List.getElem?_eq_none (by rw [List.length_reverse]; omega),
        List.getElem?_eq_none (by omega)]
    · rw [hreverse j hji, List.getElem?_take_of_lt (by omega), h j hji]

end CodeC.Library
