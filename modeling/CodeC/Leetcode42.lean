import Mathlib.Data.Int.Notation
import Mathlib.Data.List.Basic

/-!
# Trapped rain water: `leetcode/42.cpp` and `leetcode/42-2.cpp`

Two positions walk towards each other, the one at the lower height first, under one common water
level. `42.cpp` writes the level at every position down; `42-2.cpp` adds the difference at once.
The definitions of `42-2.cpp` are in the namespace `V2`. The heights are exact integers.

The loops are given by the left position `i` and the number of positions up to the right one: with
`n + 1` positions left, `j` is `i + n`, and with none left `i <= j` is false.
-/

namespace CodeC.Leetcode42

/-- `if (val < x) val = x;` -/
def raise (val x : ℤ) : ℤ := if val < x then x else val

/-- The first loop of `42.cpp` -/
def levels (height : List ℤ) : ℕ → ℕ → ℤ → List ℤ → List ℤ
  | 0, _, _, h => h
  | n + 1, i, val, h =>
    let j := i + n
    if height.getD i 0 ≤ height.getD j 0 then
      let val := raise val (height.getD i 0)
      levels height n (i + 1) val (h.set i val)
    else
      let val := raise val (height.getD j 0)
      levels height n i val (h.set j val)

def trap (height : List ℤ) : ℤ :=
  let h := levels height height.length 0 0 (List.replicate height.length 0)
  (List.range height.length).foldl (fun result i => result + (h.getD i 0 - height.getD i 0)) 0

namespace V2

/-- The loop of `42-2.cpp` -/
def trapLoop (height : List ℤ) : ℕ → ℕ → ℤ → ℤ → ℤ
  | 0, _, _, result => result
  | n + 1, i, val, result =>
    let j := i + n
    if height.getD i 0 ≤ height.getD j 0 then
      let val := raise val (height.getD i 0)
      trapLoop height n (i + 1) val (result + (val - height.getD i 0))
    else
      let val := raise val (height.getD j 0)
      trapLoop height n i val (result + (val - height.getD j 0))

def trap (height : List ℤ) : ℤ := trapLoop height height.length 0 0 0

end V2

end CodeC.Leetcode42
