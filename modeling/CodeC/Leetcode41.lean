import Mathlib.Data.Int.Notation
import Mathlib.Data.List.Basic

/-!
# The first missing positive number: `leetcode/41.cpp`

The vector `v` is a member of the object. A call resizes it, and what earlier calls have written
stays. Integers and lengths have no bound, where the source counts with `int`: the length of `nums` is
taken to be below `INT_MAX`.
-/

namespace CodeC.Leetcode41

/-- `v.resize(n)` -/
def resize (v : List Bool) (n : ℕ) : List Bool := v.take n ++ List.replicate (n - v.length) false

/-- The loop over `nums` -/
def mark (v : List Bool) (nums : List ℤ) : List Bool :=
  nums.foldl (fun v (n : ℤ) => if n > 0 ∧ n < v.length then v.set n.toNat true else v) v

/-- The return value and the member `v` after the call -/
def firstMissingPositive (v : List Bool) (nums : List ℤ) : ℕ × List Bool :=
  let v := mark (resize v (nums.length + 1)) nums
  match (List.range' 1 (v.length - 1)).find? fun i => !v.getD i false with
  | some i => (i, v)
  | none => (v.length, v)

/-- The member `v` after some calls on a new object -/
def after (calls : List (List ℤ)) : List Bool :=
  calls.foldl (fun v nums => (firstMissingPositive v nums).2) []

end CodeC.Leetcode41
