import Mathlib.Data.BitVec

/-!
# Single bits of a machine word
-/

namespace CodeC.Library

/-- The test of one bit with a mask -/
lemma and_twoPow_ne_zero_iff {w : ℕ} (x : BitVec w) {i : ℕ} (hi : i < w) :
    x &&& BitVec.twoPow w i ≠ 0#w ↔ x.getLsbD i = true := by
  rw [BitVec.and_twoPow]
  by_cases hbit : x.getLsbD i = true
  · rw [if_pos hbit]
    refine iff_of_true ?_ hbit
    intro h
    have hself : (BitVec.twoPow w i).getLsbD i = true := by simp [hi]
    rw [h, BitVec.getLsbD_zero] at hself
    cases hself
  · rw [if_neg hbit]
    exact iff_of_false (fun h => h rfl) hbit

/-- A word below `2 ^ n` -/
lemma getLsbD_eq_false_of_lt {w : ℕ} {x : BitVec w} {n i : ℕ} (hx : x.toNat < 2 ^ n) (hi : n ≤ i) :
    x.getLsbD i = false :=
  Nat.testBit_lt_two_pow (Nat.lt_of_lt_of_le hx (Nat.pow_le_pow_right (by omega) hi))

end CodeC.Library
