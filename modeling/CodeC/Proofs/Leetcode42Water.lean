import CodeC.Leetcode42
import CodeC.Library.Vector
import Mathlib.Algebra.BigOperators.Group.List.Basic
import Mathlib.Algebra.Order.Group.Int
import Mathlib.Algebra.Ring.Int.Defs

/-!
# The common level is the level between the two maxima

The level is the maximum of the heights that have been passed on both sides. The higher of the
current ends is at least as high, so on the lower side it is the maximum of that side alone.
-/

namespace CodeC.Leetcode42

/-- The maximum of the heights -/
def highest (l : List ℤ) : ℤ := l.max?.getD 0

/-- The water level at position `k` -/
def level (height : List ℤ) (k : ℕ) : ℤ :=
  min (highest (height.take (k + 1))) (highest (height.drop k))

/-- The water over all positions -/
def water (height : List ℤ) : ℤ :=
  ((List.range height.length).map fun k => level height k - height.getD k 0).sum

lemma highest_cons {x : ℤ} (hx : 0 ≤ x) (l : List ℤ) : highest (x :: l) = max x (highest l) := by
  rw [highest, highest, List.max?_cons, Option.getD_some]
  cases l.max? with
  | none =>
    simp only [Option.elim_none, Option.getD_none]
    omega
  | some a => rfl

lemma highest_nonneg {l : List ℤ} (hl : ∀ x ∈ l, 0 ≤ x) : 0 ≤ highest l := by
  cases l with
  | nil => exact Int.le_refl 0
  | cons x l =>
    have hx := hl x (by simp)
    rw [highest_cons hx]
    omega

lemma highest_append {l r : List ℤ} (hl : ∀ x ∈ l, 0 ≤ x) (hr : ∀ x ∈ r, 0 ≤ x) :
    highest (l ++ r) = max (highest l) (highest r) := by
  induction l with
  | nil => exact (Int.max_eq_right (highest_nonneg hr)).symm
  | cons x l ih =>
    have hx := hl x (by simp)
    rw [List.cons_append, highest_cons hx, highest_cons hx, ih fun y hy => hl y (by simp [hy])]
    omega

lemma highest_singleton (x : ℤ) : highest [x] = x := rfl

section maxima

variable {height : List ℤ} {k i j : ℕ}

lemma nonneg_take (h : ∀ x ∈ height, 0 ≤ x) (k : ℕ) : ∀ x ∈ height.take k, 0 ≤ x :=
  fun x hx => h x (List.mem_of_mem_take hx)

lemma nonneg_drop (h : ∀ x ∈ height, 0 ≤ x) (k : ℕ) : ∀ x ∈ height.drop k, 0 ≤ x :=
  fun x hx => h x (List.mem_of_mem_drop hx)

lemma highest_take_succ (h : ∀ x ∈ height, 0 ≤ x) (hk : k < height.length) :
    highest (height.take (k + 1)) = max (highest (height.take k)) (height.getD k 0) := by
  rw [← List.take_append_getElem hk, highest_append (nonneg_take h k), highest_singleton]
  · simp [List.getD_eq_getElem?_getD, hk]
  · intro x hx
    rw [List.mem_singleton.mp hx]
    exact h _ (List.getElem_mem hk)

lemma highest_drop (h : ∀ x ∈ height, 0 ≤ x) (hk : k < height.length) :
    highest (height.drop k) = max (height.getD k 0) (highest (height.drop (k + 1))) := by
  rw [List.drop_eq_getElem_cons hk, ← List.singleton_append, highest_append _ (nonneg_drop h (k + 1)),
    highest_singleton]
  · simp [List.getD_eq_getElem?_getD, hk]
  · intro x hx
    rw [List.mem_singleton.mp hx]
    exact h _ (List.getElem_mem hk)

lemma highest_take_mono (h : ∀ x ∈ height, 0 ≤ x) (hij : i ≤ j) :
    highest (height.take i) ≤ highest (height.take j) := by
  have hsplit : height.take j = height.take i ++ (height.take j).drop i := by
    have hcut := List.take_append_drop i (height.take j)
    rw [List.take_take, Nat.min_eq_left hij] at hcut
    exact hcut.symm
  rw [hsplit, highest_append (nonneg_take h i)]
  · exact Int.le_max_left _ _
  · exact fun x hx => nonneg_take h j x (List.mem_of_mem_drop hx)

lemma highest_drop_mono (h : ∀ x ∈ height, 0 ≤ x) (hij : i ≤ j) :
    highest (height.drop j) ≤ highest (height.drop i) := by
  have hsplit : height.drop i = (height.drop i).take (j - i) ++ height.drop j := by
    have := List.take_append_drop (j - i) (height.drop i)
    rw [List.drop_drop, Nat.add_sub_cancel' hij] at this
    exact this.symm
  rw [hsplit, highest_append _ (nonneg_drop h j)]
  · exact Int.le_max_right _ _
  · exact fun x hx => nonneg_drop h i x (List.mem_of_mem_take hx)

end maxima

/-- With `n` positions left from `i` on: the level is the maximum of the heights passed. On each
side they are not higher than the other side with its next position. -/
structure Inv (height : List ℤ) (n i : ℕ) (val : ℤ) : Prop where
  val_eq : val = max (highest (height.take i)) (highest (height.drop (i + n)))
  right_le : 0 < n → highest (height.drop (i + n)) ≤ max (highest (height.take i)) (height.getD i 0)
  left_le : 0 < n → highest (height.take i) ≤
    max (highest (height.drop (i + n))) (height.getD (i + n - 1) 0)

section walk

variable {height : List ℤ} {n i : ℕ} {val : ℤ}

lemma raise_eq_max (val x : ℤ) : raise val x = max val x := by
  rw [raise]
  split <;> omega

/-- The left position is passed. -/
lemma Inv.left (h : ∀ x ∈ height, 0 ≤ x) (hi : i + n < height.length) (hinv : Inv height (n + 1) i val)
    (hle : height.getD i 0 ≤ height.getD (i + n) 0) :
    raise val (height.getD i 0) = level height i ∧
      Inv height n (i + 1) (raise val (height.getD i 0)) := by
  have hval := hinv.val_eq
  have hright := hinv.right_le (Nat.succ_pos n)
  have hleft := hinv.left_le (Nat.succ_pos n)
  have htake := highest_take_succ (k := i) h (by omega)
  have hdrop := highest_drop h hi
  have hmono := highest_drop_mono h (Nat.le_add_right i n)
  rw [show i + (n + 1) - 1 = i + n by omega] at hleft
  rw [show i + (n + 1) = i + n + 1 by omega] at hval hright hleft
  refine ⟨?_, ⟨?_, fun hn => ?_, fun hn => ?_⟩⟩
  · rw [raise_eq_max, level]
    omega
  · rw [raise_eq_max, show i + 1 + n = i + n + 1 by omega]
    omega
  · rw [show i + 1 + n = i + n + 1 by omega]
    omega
  · rw [show i + 1 + n - 1 = i + n by omega, show i + 1 + n = i + n + 1 by omega]
    omega

/-- The right position is passed. -/
lemma Inv.right (h : ∀ x ∈ height, 0 ≤ x) (hi : i + n < height.length)
    (hinv : Inv height (n + 1) i val) (hlt : ¬height.getD i 0 ≤ height.getD (i + n) 0) :
    raise val (height.getD (i + n) 0) = level height (i + n) ∧
      Inv height n i (raise val (height.getD (i + n) 0)) := by
  have hval := hinv.val_eq
  have hright := hinv.right_le (Nat.succ_pos n)
  have hleft := hinv.left_le (Nat.succ_pos n)
  have htake := highest_take_succ (k := i) h (by omega)
  have hdrop := highest_drop h hi
  have hmono := highest_take_mono h (show i + 1 ≤ i + n + 1 by omega)
  rw [show i + (n + 1) - 1 = i + n by omega] at hleft
  rw [show i + (n + 1) = i + n + 1 by omega] at hval hright hleft
  refine ⟨?_, ⟨?_, fun hn => ?_, fun hn => ?_⟩⟩
  · rw [raise_eq_max, level]
    omega
  · rw [raise_eq_max]
    omega
  · omega
  · omega

lemma V2.trapLoop_eq (h : ∀ x ∈ height, 0 ≤ x) (hi : i + n ≤ height.length)
    (hinv : Inv height n i val) (result : ℤ) :
    V2.trapLoop height n i val result = result +
      ((List.range' i n).map fun k => level height k - height.getD k 0).sum := by
  induction n generalizing i val result with
  | zero => simp [V2.trapLoop]
  | succ n ih =>
    rw [V2.trapLoop]
    by_cases hle : height.getD i 0 ≤ height.getD (i + n) 0
    · obtain ⟨hlevel, hnext⟩ := hinv.left h (by omega) hle
      simp only [if_pos hle]
      rw [ih (by omega) hnext, hlevel, List.range'_succ, List.map_cons, List.sum_cons]
      omega
    · obtain ⟨hlevel, hnext⟩ := hinv.right h (by omega) hle
      simp only [if_neg hle]
      rw [ih (by omega) hnext, hlevel, List.range'_1_concat, List.map_append, List.sum_append,
        List.map_singleton, List.sum_singleton]
      omega

/-- The levels of the positions that are left get written. -/
lemma levels_getD (h : ∀ x ∈ height, 0 ≤ x) (hi : i + n ≤ height.length)
    (hinv : Inv height n i val) {l : List ℤ} (hl : l.length = height.length) (k : ℕ) :
    (levels height n i val l).getD k 0 =
      if i ≤ k ∧ k < i + n then level height k else l.getD k 0 := by
  induction n generalizing i val l with
  | zero => rw [levels, if_neg (by omega)]
  | succ n ih =>
    rw [levels]
    by_cases hle : height.getD i 0 ≤ height.getD (i + n) 0
    · obtain ⟨hlevel, hnext⟩ := hinv.left h (by omega) hle
      simp only [if_pos hle]
      rw [ih (by omega) hnext (by rw [List.length_set, hl]), hlevel, Library.getD_set]
      by_cases hk : k = i
      · rw [if_neg (by omega), if_pos ⟨hk.symm, by omega⟩, if_pos (by omega), hk]
      · rw [if_neg fun h : i = k ∧ _ => hk h.1.symm]
        congr 1
        rw [eq_iff_iff]
        omega
    · obtain ⟨hlevel, hnext⟩ := hinv.right h (by omega) hle
      simp only [if_neg hle]
      rw [ih (by omega) hnext (by rw [List.length_set, hl]), hlevel, Library.getD_set]
      by_cases hk : k = i + n
      · rw [if_neg (by omega), if_pos ⟨hk.symm, by omega⟩, if_pos (by omega), hk]
      · rw [if_neg fun h : i + n = k ∧ _ => hk h.1.symm]
        congr 1
        rw [eq_iff_iff]
        omega

lemma inv_start (height : List ℤ) : Inv height height.length 0 0 := by
  have hleft : highest (height.take 0) = 0 := rfl
  have hright : highest (height.drop (0 + height.length)) = 0 := by
    rw [Nat.zero_add, List.drop_length]
    rfl
  refine ⟨?_, fun _ => ?_, fun _ => ?_⟩
  · rw [hleft, hright]
    rfl
  · rw [hleft, hright]
    exact Int.le_max_left _ _
  · rw [hleft, hright]
    exact Int.le_max_left _ _

lemma foldl_eq_sum (f : ℕ → ℤ) (l : List ℕ) (result : ℤ) :
    l.foldl (fun result k => result + f k) result = result + (l.map f).sum := by
  induction l generalizing result with
  | nil => simp
  | cons k l ih =>
    rw [List.foldl_cons, ih, List.map_cons, List.sum_cons]
    omega

/-- Both versions return the water over all positions. -/
theorem trap_eq_water (height : List ℤ) (h : ∀ x ∈ height, 0 ≤ x) :
    trap height = water height ∧ V2.trap height = water height := by
  have hinv := inv_start height
  constructor
  · rw [trap, foldl_eq_sum, water, Int.zero_add]
    congr 1
    apply List.map_congr_left
    intro k hk
    rw [levels_getD h (by omega) hinv List.length_replicate, if_pos]
    exact ⟨Nat.zero_le k, by simpa using hk⟩
  · rw [V2.trap, V2.trapLoop_eq h (by omega) hinv, water, Int.zero_add, List.range_eq_range']

theorem trap_eq_water_example :
    trap [2, 0, 1, 3, 1, 2] = water [2, 0, 1, 3, 1, 2] ∧
      V2.trap [2, 0, 1, 3, 1, 2] = water [2, 0, 1, 3, 1, 2] ∧ water [2, 0, 1, 3, 1, 2] = 4 := by
  obtain ⟨htrap, htrap2⟩ := trap_eq_water [2, 0, 1, 3, 1, 2] (by decide)
  exact ⟨htrap, htrap2, by decide⟩

end walk

end CodeC.Leetcode42
