import Mathlib.Data.Int.Notation
import Mathlib.Data.List.Basic

/-!
# The longest valid parentheses of `leetcode/32.cpp`

A vector keeps a marker for every character: -1 for a `'('` without a partner so far, -2 for a
`')'` without one, 1 for both characters of a pair. The slot after the last character stays 0. Positions
are of type `int` in the source, so the length of the string is taken to be below `INT_MAX`.
-/

namespace CodeC.Leetcode32

/-- The search for the last -1 before position `i` -/
def lastOpen (v : List ℤ) : ℕ → Option ℕ
  | 0 => none
  | j + 1 => if v.getD j 0 = -1 then some j else lastOpen v j

/-- The body of the first loop -/
def mark (v : List ℤ) (i : ℕ) (c : Char) : List ℤ :=
  if c = '(' then v.set i (-1)
  else
    -- 找到上一个-1，改成1，并push_back(1)；否则push_back(-2)
    match lastOpen v i with
    | none => v.set i (-2)
    | some last => (v.set last 1).set i 1

/-- The first loop, from position `i` on -/
def markAll (v : List ℤ) (i : ℕ) : List Char → List ℤ
  | [] => v
  | c :: s => markAll (mark v i c) (i + 1) s

/-- The variables of the second loop -/
structure Runs where
  max : ℕ
  cur : ℕ

/-- The body of the second loop -/
def Runs.next (r : Runs) (i : ℤ) : Runs :=
  if i = 1 then { r with cur := r.cur + 1 }
  else
    -- 更新max
    ⟨if r.cur > r.max then r.cur else r.max, 0⟩

def longestValidParentheses (s : List Char) : ℕ :=
  let v := markAll (List.replicate (s.length + 1) 0) 0 s
  -- 遍历v，计算最长的连续1
  (v.foldl Runs.next ⟨0, 0⟩).max

end CodeC.Leetcode32
