import CodeC.Leetcode214
import CodeC.Library.Palindrome

/-!
# The shortest palindrome

When `s[j]` and `s[i - j]` differ, the next axis is the next place where `s[i - j]` has an equal
partner. The axes in between would pair `s[i - j]` with letters that differ from it, so none of
them is passed over wrongly.
-/

namespace CodeC.Leetcode214
open Library

variable {s : List Char} {i : ℕ}

/-- The letters of `s` are symmetric about the axis `i / 2`. -/
def Symmetric (s : List Char) (i : ℕ) : Prop := ∀ j ≤ i, s[j]? = s[i - j]?

lemma symmetric_zero (s : List Char) : Symmetric s 0 := by
  intro j hj
  obtain rfl : j = 0 := by omega
  rfl

/-- The comparison of the lower half is enough. -/
lemma symmetric_of_half (h : ∀ j < (i - 1) / 2 + 1, s[j]? = s[i - j]?) : Symmetric s i := by
  intro j hj
  rcases Nat.lt_or_ge j ((i - 1) / 2 + 1) with hlow | hhigh
  · exact h j hlow
  · rcases Nat.lt_or_ge (i - j) ((i - 1) / 2 + 1) with hlow' | hhigh'
    · rw [h (i - j) hlow', Nat.sub_sub_self hj]
    · have hmid : i - j = j := by omega
      rw [hmid]

/-- The loop over `j` stays inside `s`, and it ends below 0 or at a mismatch. -/
lemma compareLoop_spec {m : ℕ} (hi : i < s.length) (hm : m ≤ i + 1) :
    (compareLoop s i m = some (-1) ∧ ∀ j < m, s[j]? = s[i - j]?) ∨
      ∃ j, j < m ∧ compareLoop s i m = some (j : ℤ) ∧ s[j]? ≠ s[i - j]? := by
  induction m with
  | zero => exact .inl ⟨rfl, by simp⟩
  | succ j ih =>
    have hj : s[j]? = some s[j] := List.getElem?_eq_getElem (by omega)
    have hij : s[i - j]? = some s[i - j] := List.getElem?_eq_getElem (by omega)
    rw [compareLoop, hj, hij]
    by_cases heq : s[j] = s[i - j]
    · simp only [heq, ne_eq, not_true_eq_false, if_false]
      obtain ⟨hloop, hall⟩ | ⟨l, hl, hloop, hne⟩ := ih (by omega)
      · refine .inl ⟨hloop, fun l hl => ?_⟩
        rcases Nat.lt_succ_iff_lt_or_eq.mp hl with hl | rfl
        · exact hall l hl
        · rw [hj, hij, heq]
      · exact .inr ⟨l, by omega, hloop, hne⟩
    · exact .inr ⟨j, by omega, by simp [heq], by simp [hj, hij, heq]⟩

/-- The loop over `k` stays inside `s`, and it ends at the nearest letter equal to `s[p]`. -/
lemma searchLoop_spec {m p : ℕ} (hm : m ≤ s.length) (hp : p < s.length) :
    ∃ k : ℤ, searchLoop s p m = some k ∧ -1 ≤ k ∧ k < m ∧
      ∀ l : ℕ, k < l → l < m → s[l]? ≠ s[p]? := by
  induction m with
  | zero => exact ⟨-1, rfl, by omega, by omega, by simp⟩
  | succ k ih =>
    have hk : s[k]? = some s[k] := List.getElem?_eq_getElem (by omega)
    have hp' : s[p]? = some s[p] := List.getElem?_eq_getElem hp
    rw [searchLoop, hk, hp']
    by_cases heq : s[k] = s[p]
    · exact ⟨k, by simp [heq], by omega, by omega, fun l hl hl' => by omega⟩
    · obtain ⟨l, hloop, hlow, hlt, hnone⟩ := ih (by omega)
      refine ⟨l, by simpa [heq] using hloop, hlow, by omega, fun l' hl hl' => ?_⟩
      rcases Nat.lt_succ_iff_lt_or_eq.mp hl' with hl' | rfl
      · rw [← hp']
        exact hnone l' hl hl'
      · simp [hk, heq]

/-- No axis is passed over: between the new axis and the old one, `s[i - j]` has no equal
partner. -/
lemma not_symmetric_between {j : ℕ} {k : ℤ} (hj : j ≤ i)
    (hnone : ∀ l : ℕ, k < l → l < j → s[l]? ≠ s[i - j]?) {a : ℕ} (ha : (i - j : ℤ) + k < a)
    (ha' : a < i) (hk : -1 ≤ k) : ¬Symmetric s a := by
  intro hsym
  have hle : i - j ≤ a := by omega
  have hpair := hsym (i - j) hle
  exact hnone (a - (i - j)) (by omega) (by omega) hpair.symm

/-- The outer loop ends at the largest axis about which `s` is symmetric. -/
lemma axisLoop_spec {fuel : ℕ} (hi : i < s.length) (hfuel : i ≤ fuel)
    (habove : ∀ a, i < a → a < s.length → ¬Symmetric s a) :
    ∃ c : ℕ, axisLoop s fuel i = some (c : ℤ) ∧ c < s.length ∧ Symmetric s c ∧
      ∀ a, c < a → a < s.length → ¬Symmetric s a := by
  induction fuel generalizing i with
  | zero =>
    obtain rfl : i = 0 := by omega
    exact ⟨0, rfl, hi, symmetric_zero s, habove⟩
  | succ fuel ih =>
    rw [axisLoop]
    rcases Nat.eq_zero_or_pos i with rfl | hpos
    · exact ⟨0, by simp, hi, symmetric_zero s, habove⟩
    · rw [if_pos (by omega), Int.toNat_natCast]
      obtain ⟨hloop, hall⟩ | ⟨j, hj, hloop, hne⟩ :=
        compareLoop_spec (m := (i - 1) / 2 + 1) hi (by omega)
      · rw [hloop]
        exact ⟨i, by simp, hi, symmetric_of_half hall, habove⟩
      · obtain ⟨k, hsearch, hlow, hlt, hnone⟩ :=
          searchLoop_spec (s := s) (m := j) (p := i - j) (by omega) (by omega)
        have hindex : ((i : ℤ) - j).toNat = i - j := by omega
        rw [hloop]
        simp only [Int.toNat_natCast, hindex, hsearch]
        rw [if_neg (by omega)]
        obtain ⟨i', hi'⟩ : ∃ i' : ℕ, (i : ℤ) - j + k + 1 - 1 = i' :=
          ⟨((i : ℤ) - j + k).toNat, by omega⟩
        rw [hi']
        refine ih (by omega) (by omega) fun a ha ha' => ?_
        rcases Nat.lt_trichotomy a i with hai | rfl | hai
        · exact not_symmetric_between (by omega) hnone (by omega) hai hlow
        · exact fun hsym => hne (hsym j (by omega))
        · exact habove a hai ha'

lemma symmetric_iff (hi : i < s.length) :
    Symmetric s i ↔ (s.take (i + 1)).reverse = s.take (i + 1) := (reverse_take_succ_iff hi).symm

lemma complete_eq {c : ℕ} (hc : c < s.length) :
    complete s c = (s.drop (c + 1)).reverse ++ s := by
  unfold complete
  split
  · next h =>
    have hdrop : s.length ≤ c + 1 := by omega
    rw [List.drop_eq_nil_of_le hdrop]
    rfl
  · rw [Int.toNat_natCast, List.take_reverse]
    congr 3
    omega

lemma shortestPalindrome_nil (fuel : ℕ) : shortestPalindrome fuel [] = some [] := by
  cases fuel <;> simp [shortestPalindrome, axisLoop, complete]

/-- The string is completed at the largest axis of symmetry. -/
lemma shortestPalindrome_eq (hs : s ≠ []) {fuel : ℕ} (hfuel : s.length ≤ fuel) :
    ∃ c, shortestPalindrome fuel s = some ((s.drop (c + 1)).reverse ++ s) ∧ c < s.length ∧
      Symmetric s c ∧ ∀ a, c < a → a < s.length → ¬Symmetric s a := by
  have hlen := List.length_pos_of_ne_nil hs
  have hlast : (s.length : ℤ) - 1 = (s.length - 1 : ℕ) := by omega
  obtain ⟨c, hloop, hc, hsym, hmax⟩ :=
    axisLoop_spec (show s.length - 1 < s.length by omega) (show s.length - 1 ≤ fuel by omega)
      fun a ha ha' => absurd ha' (by omega)
  refine ⟨c, ?_, hc, hsym, hmax⟩
  rw [shortestPalindrome, hlast, hloop, Option.map_some, complete_eq hc]

/-- With as many rounds as `s` has letters, `shortestPalindrome` comes to an end. All its accesses
are inside `s`, and it returns the shortest palindrome that ends with `s`. -/
theorem shortestPalindrome_shortest (s : List Char) (extra : ℕ) :
    ∃ r, shortestPalindrome (s.length + extra) s = some r ∧ r.reverse = r ∧ s <:+ r ∧
      ∀ t : List Char, t.reverse = t → s <:+ t → r.length ≤ t.length := by
  rcases eq_or_ne s [] with rfl | hs
  · exact ⟨[], shortestPalindrome_nil _, rfl, List.suffix_refl _, fun t _ _ => Nat.zero_le _⟩
  · obtain ⟨c, hresult, hc, hsym, hmax⟩ := shortestPalindrome_eq hs (Nat.le_add_right _ extra)
    refine ⟨_, hresult, reverse_complete ((symmetric_iff hc).mp hsym), List.suffix_append _ _, ?_⟩
    intro t ht hsuffix
    refine length_complete_le (fun k hk hk' hpal => ?_) ht hsuffix
    obtain ⟨a, rfl⟩ : ∃ a, k = a + 1 := ⟨k - 1, by omega⟩
    exact hmax a (by omega) (by omega) ((symmetric_iff (by omega)).mpr hpal)

example : shortestPalindrome 8 "aacecaaa".toList = some "aaacecaaa".toList := by decide

end CodeC.Leetcode214
