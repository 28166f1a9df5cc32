import Mathlib.Data.Int.Notation
import Mathlib.Data.List.Basic

/-!
# The k-th permutation: `leetcode/60.cpp`

Integers are 32 bits wide. A result outside the range, and an index outside the vector, end the
computation with `none`.
-/

namespace CodeC.Leetcode60

/-- The value of an expression of type `int` -/
def int32 (x : ℤ) : Option ℤ := if -2147483648 ≤ x ∧ x ≤ 2147483647 then some x else none

def fac (x : ℕ) : Option ℤ := (List.range' 1 x).foldlM (fun f i => int32 (f * i)) 1

/-- What a call of `solve` passes on: the character, the vector without it, and the new `k`. -/
structure Picked where
  c : ℤ
  v : List ℤ
  k : ℤ

/-- One call of `solve` for a vector that is not empty -/
def pick (v : List ℤ) (k : ℤ) : Option Picked := do
  let f ← fac (v.length - 1)
  let i := (← int32 (k - 1)).tdiv f
  -- `v.begin()+i`
  if 0 ≤ i ∧ i < v.length then
    let c ← int32 (48 + v.getD i.toNat 0)
    let m ← int32 (i * f)
    let k ← int32 (k - m)
    return ⟨c, v.eraseIdx i.toNat, k⟩
  else none

lemma length_pick {v : List ℤ} {k : ℤ} {p : Picked} (h : pick v k = some p) :
    p.v.length < v.length := by
  simp only [pick, Option.bind_eq_bind, Option.bind_eq_some_iff] at h
  obtain ⟨f, -, k₁, -, h⟩ := h
  split at h
  · rename_i hi
    simp only [Option.bind_eq_some_iff] at h
    obtain ⟨c, -, m, -, k', -, h⟩ := h
    obtain rfl := Option.some.inj h
    rw [List.length_eraseIdx_of_lt (by omega)]
    omega
  · cases h

/-- The string is a list of bytes; `'0'+e` is converted to `char`. -/
def solve (v : List ℤ) (k : ℤ) (res : List (BitVec 8)) : Option (List (BitVec 8)) :=
  if v.length = 0 then some res
  else
    match _h : pick v k with
    | none => none
    | some p => solve p.v p.k (res ++ [BitVec.ofInt 8 p.c])
  termination_by v.length
  decreasing_by exact length_pick _h

def getPermutation (n : ℕ) (k : ℤ) : Option (List (BitVec 8)) :=
  -- 从小到大排列
  solve ((List.range n).map fun i : ℕ => (i : ℤ) + 1) k []

end CodeC.Leetcode60
