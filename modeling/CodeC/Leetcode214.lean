import Mathlib.Data.Int.Notation
import Mathlib.Data.List.Basic

/-!
# `leetcode/214.cpp`

The loops of `shortestPalindrome` with their variables as in the source. `i` is twice the axis of
symmetry. The result `none` is an access to a character outside of `s`, or the end of the fuel of
the outer loop. The variables are of type `int`, so the length of `s` is taken to be at most
`INT_MAX`.
-/

namespace CodeC.Leetcode214

/-- The loop over `j`, 依次j和i-j对称，发现不等时break, with the argument `j + 1`. The result is the
value of `j` after the loop. -/
def compareLoop (s : List Char) (i : ℕ) : ℕ → Option ℤ
  | 0 => some (-1)
  | j + 1 =>
    match s[j]?, s[i - j]? with
    | some a, some b => if a ≠ b then some j else compareLoop s i j
    | _, _ => none

/-- The loop over `k`, with the argument `k + 1`; `p` is the index `i - j`. The result is the value
of `k` after the loop. -/
def searchLoop (s : List Char) (p : ℕ) : ℕ → Option ℤ
  | 0 => some (-1)
  | k + 1 =>
    match s[k]?, s[p]? with
    | some a, some b => if a = b then some k else searchLoop s p k
    | _, _ => none

/-- The loop over `i`. It ends with the assignment to `i` in the loop over `j` and with `i--`. -/
def axisLoop (s : List Char) : ℕ → ℤ → Option ℤ
  | 0, i => if i > 0 then none else some i
  | fuel + 1, i =>
    if i > 0 then
      match compareLoop s i.toNat ((i.toNat - 1) / 2 + 1) with
      | none => none
      | some j =>
        if j < 0 then some i
        else
          match searchLoop s (i - j).toNat j.toNat with
          | none => none
          | some k => axisLoop s fuel (i - j + k + 1 - 1)
    else some i

/-- 针对c作为中心，进行补齐。对称轴坐标放大2倍 -/
def complete (s : List Char) (c : ℤ) : List Char :=
  if s.length ≤ 1 ∨ c < 0 ∨ c > s.length - 1 then s
  else s.reverse.take (s.length - 1 - c.toNat) ++ s

def shortestPalindrome (fuel : ℕ) (s : List Char) : Option (List Char) :=
  (axisLoop s fuel (s.length - 1)).map (complete s)

end CodeC.Leetcode214
