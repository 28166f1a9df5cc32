import CodeC.Leetcode60
import CodeC.Library.LexPermutations
import Mathlib.Algebra.Order.Group.Int

/-!
# `solve` appends the k-th permutation

The quotient by the factorial is the position of the first element, and the remainder is the number
of the rest among the permutations of the rest.
-/

namespace CodeC.Leetcode60
open Library

/-- The character that stands for an element -/
def image (e : ℤ) : BitVec 8 := BitVec.ofInt 8 (48 + e)

lemma int32_eq_some {x : ℤ} (hlow : -2147483648 ≤ x) (hhigh : x ≤ 2147483647) :
    int32 x = some x := if_pos ⟨hlow, hhigh⟩

lemma fac_eq_factorial : ∀ n ≤ 12, fac n = some (n.factorial : ℤ) := by decide

variable {v : List ℤ} {n i r : ℕ}

/-- One call, with the first digit of `k - 1` in the factorial base. -/
lemma pick_eq (hlen : v.length = n + 1) (hn : n ≤ 12)
    (hint : ∀ e ∈ v, -2147483648 ≤ e ∧ e ≤ 2147483599) {e : ℤ} (hi : v[i]? = some e)
    (hr : r < n.factorial) (hk : i * n.factorial + r + 1 ≤ 2147483647) :
    pick v ((i * n.factorial + r + 1 : ℕ) : ℤ) =
      some ⟨48 + e, v.eraseIdx i, ((r + 1 : ℕ) : ℤ)⟩ := by
  obtain ⟨hilt, rfl⟩ := List.getElem?_eq_some_iff.mp hi
  have hmem := hint _ (List.getElem_mem hilt)
  have hf : fac (v.length - 1) = some (n.factorial : ℤ) := by
    rw [hlen]
    exact fac_eq_factorial n hn
  have hk1 : ((i * n.factorial + r + 1 : ℕ) : ℤ) - 1 = ((i * n.factorial + r : ℕ) : ℤ) := by
    push_cast
    omega
  have hdiv : ((i * n.factorial + r : ℕ) : ℤ).tdiv (n.factorial : ℤ) = (i : ℤ) := by
    rw [← Int.ofNat_tdiv, Nat.add_comm, Nat.add_mul_div_right _ _ (by omega), Nat.div_eq_of_lt hr,
      Nat.zero_add]
  have hmul : (i : ℤ) * (n.factorial : ℤ) = ((i * n.factorial : ℕ) : ℤ) := by push_cast; rfl
  have hsub : ((i * n.factorial + r + 1 : ℕ) : ℤ) - ((i * n.factorial : ℕ) : ℤ) =
      ((r + 1 : ℕ) : ℤ) := by
    push_cast
    omega
  have hget : v.getD i 0 = v[i] := by
    rw [List.getD_eq_getElem?_getD, hi, Option.getD_some]
  simp only [pick, Option.bind_eq_bind, hf, Option.bind_some, hk1]
  rw [int32_eq_some (by omega) (by omega), Option.bind_some, hdiv, if_pos ⟨by omega, by omega⟩,
    Int.toNat_natCast, hget, int32_eq_some (by omega) (by omega), Option.bind_some, hmul,
    int32_eq_some (by omega) (by omega), Option.bind_some, hsub,
    int32_eq_some (by omega) (by omega), Option.bind_some]
  rfl

lemma solve_of_pick {k : ℤ} {p : Picked} (hv : v.length ≠ 0) (h : pick v k = some p)
    (res : List (BitVec 8)) : solve v k res = solve p.v p.k (res ++ [BitVec.ofInt 8 p.c]) := by
  rw [solve, if_neg hv]
  split
  · rename_i hnone
    rw [h] at hnone
    cases hnone
  · rename_i q hq
    rw [h] at hq
    obtain rfl := Option.some.inj hq
    rfl

lemma solve_eq (hlen : v.length = n) (hn : n ≤ 13)
    (hint : ∀ e ∈ v, -2147483648 ≤ e ∧ e ≤ 2147483599) {k : ℕ} (hk : k < n.factorial)
    (hk' : k + 1 ≤ 2147483647) (res : List (BitVec 8)) :
    ∃ p, (lexPerms n v)[k]? = some p ∧
      solve v ((k + 1 : ℕ) : ℤ) res = some (res ++ p.map image) := by
  induction n generalizing v k res with
  | zero =>
    have hk0 : k = 0 := by simpa using hk
    subst hk0
    rw [solve, if_pos hlen]
    exact ⟨[], rfl, by simp⟩
  | succ n ih =>
    have hpos : 0 < n.factorial := Nat.factorial_pos n
    have hdigit : k / n.factorial < n + 1 := by
      rw [Nat.div_lt_iff_lt_mul hpos]
      exact hk
    have hi : v[k / n.factorial]? = some v[k / n.factorial] :=
      List.getElem?_eq_getElem (by omega)
    have hmod : k % n.factorial < n.factorial := Nat.mod_lt k hpos
    have hsplit : k / n.factorial * n.factorial + k % n.factorial = k := Nat.div_add_mod' k _
    have hpick := pick_eq hlen (by omega) hint hi hmod (by omega)
    rw [hsplit] at hpick
    have hrest : (v.eraseIdx (k / n.factorial)).length = n := by
      rw [List.length_eraseIdx_of_lt (by omega)]
      omega
    obtain ⟨p, hp, hsolve⟩ := ih hrest (by omega)
      (fun e he => hint e (List.mem_of_mem_eraseIdx he)) hmod (by omega)
      (res ++ [image v[k / n.factorial]])
    refine ⟨v[k / n.factorial] :: p, ?_, ?_⟩
    · have hget := getElem?_lexPerms hlen hi hmod
      rw [hsplit, hp] at hget
      exact hget
    · rw [solve_of_pick (by omega) hpick, ← image, hsolve, List.map_cons, List.append_assoc,
        List.singleton_append]

/-- The k-th of all permutations in lexicographic order. -/
theorem solve_kth (hv : v.Pairwise (· < ·)) (hlen : v.length ≤ 13)
    (hint : ∀ e ∈ v, -2147483648 ≤ e ∧ e ≤ 2147483599) :
    ∃ perms : List (List ℤ), perms.Pairwise (· < ·) ∧ (∀ q, q ∈ perms ↔ q.Perm v) ∧
      perms.length = v.length.factorial ∧ perms.Nodup ∧
      ∀ k : ℕ, 1 ≤ k → k ≤ v.length.factorial → k ≤ 2147483647 → ∀ res : List (BitVec 8),
        ∃ p, perms[k - 1]? = some p ∧ solve v k res = some (res ++ p.map image) := by
  have hsorted := lexPerms_sorted hv v.length
  refine ⟨lexPerms v.length v, hsorted, mem_lexPerms rfl, length_lexPerms rfl,
    hsorted.imp ne_of_lt, fun k hk hfac hmax res => ?_⟩
  obtain ⟨j, rfl⟩ : ∃ j, k = j + 1 := ⟨k - 1, by omega⟩
  exact solve_eq rfl hlen hint hfac hmax res

theorem solve_kth_three :
    ∃ perms : List (List ℤ), perms.Pairwise (· < ·) ∧ (∀ q, q ∈ perms ↔ q.Perm [1, 2, 3]) ∧
      perms.length = 6 ∧ ∃ p, perms[4 - 1]? = some p ∧ solve [1, 2, 3] 4 [] = some (p.map image) := by
  obtain ⟨perms, hsorted, hmem, hlen, -, hsolve⟩ :=
    solve_kth (v := [1, 2, 3]) (by decide) (by decide) (by decide)
  exact ⟨perms, hsorted, hmem, hlen, hsolve 4 (by decide) (by decide) (by decide) []⟩

/-- The character of the greatest `int` overflows. -/
theorem solve_overflow :
    ([2147483647] : List ℤ).Pairwise (· < ·) ∧ ([2147483647] : List ℤ).length ≤ 13 ∧
      1 ≤ ([2147483647] : List ℤ).length.factorial ∧ ∀ res, solve [2147483647] 1 res = none := by
  refine ⟨by decide, by decide, by decide, fun res => ?_⟩
  have hpick : pick [2147483647] 1 = none := rfl
  rw [solve, if_neg (by decide)]
  split
  · rfl
  · rename_i p hp
    rw [hpick] at hp
    cases hp

/-- The elements that `getPermutation` passes are far below the limit. -/
lemma getPermutation_eq (hn : n ≤ 13) {k : ℕ} (hk : k < n.factorial) (hk' : k + 1 ≤ 2147483647) :
    ∃ p, (lexPerms n ((List.range n).map fun i : ℕ => (i : ℤ) + 1))[k]? = some p ∧
      getPermutation n ((k + 1 : ℕ) : ℤ) = some (p.map image) := by
  refine solve_eq (by simp) hn (fun e he => ?_) hk hk' []
  obtain ⟨i, hi, rfl⟩ := List.mem_map.mp he
  have := List.mem_range.mp hi
  omega

end CodeC.Leetcode60
