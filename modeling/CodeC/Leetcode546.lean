import Mathlib.Data.Int.Notation
import Mathlib.Data.List.Basic

/-!
# Removing boxes: `leetcode/546-2.cpp`

`remove` fills a table with an entry for each interval of boxes: the best score it found, and the
number of boxes that go together with the first one. An interval is split after each box, except
within a run of equal boxes, and the two parts are removed one after the other or, when their first
boxes have the same colour, with the groups of these boxes joined.

Scores and indices are natural numbers: a list of 100 boxes scores at most 10000.
-/

namespace CodeC.Leetcode546

/-- `dp[l][r][0]` and `dp[l][r][1]` -/
abbrev Dp := ℕ → ℕ → ℕ × ℕ

def updatedp (dp : Dp) (l r score same : ℕ) : ℕ × Dp :=
  if score ≤ (dp l r).1 then ((dp l r).1, dp)
  else (score, fun l' r' => if l' = l ∧ r' = r then (score, same) else dp l' r')

/-- A round of the loop of `remove`, for the split after the box `i` -/
def split (remove : ℕ → ℕ → Dp → Option (ℕ × Dp)) (box : List ℤ) (l r : ℕ) (dp : Dp) (i : ℕ) :
    Option Dp := do
  if box[i]? = box[i + 1]? ∧ i ≠ r - 1 then return dp
  let (lscore, dp) ← remove l i dp
  let (rscore, dp) ← remove (i + 1) r dp
  let dp := (updatedp dp l r (lscore + rscore) (dp l i).2).2
  if box[l]? = box[i + 1]? then
    let score := (dp l i).1 + (dp (i + 1) r).1 + 2 * (dp l i).2 * (dp (i + 1) r).2
    return (updatedp dp l r score ((dp l i).2 + (dp (i + 1) r).2)).2
  return dp

/-- `none` when the fuel runs out, and for an entry outside the table of 100 rows and columns -/
def remove (box : List ℤ) : ℕ → ℕ → ℕ → Dp → Option (ℕ × Dp)
  | 0, _, _, _ => none
  | fuel + 1, l, r, dp => do
    if l > r then return (0, dp)
    if r ≥ 100 then none
    if (dp l r).1 ≠ 0 then return ((dp l r).1, dp)
    if l = r then return updatedp dp l r 1 1
    let dp ← (List.range' l (r - l)).foldlM (split (remove box fuel) box l r) dp
    return ((dp l r).1, dp)

def removeBoxes (fuel : ℕ) (boxes : List ℤ) : Option ℕ :=
  match boxes.length with
  -- `remove` is called with `r = -1` and returns at once
  | 0 => some 0
  | n + 1 => (remove boxes fuel 0 n fun _ _ => (0, 0)).map Prod.fst

end CodeC.Leetcode546
