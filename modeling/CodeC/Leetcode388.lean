import CodeC.Library.Loop
import Mathlib.Data.List.Basic

/-!
# The longest file path: `leetcode/388.cpp`

`nextline` scans one line and counts its tabs; `lengthLongestPath` keeps the path lengths of the
directories that are open, each with a slash in front, in a vector that it cuts to the level of the
line. Positions and lengths are natural numbers without a bound, where the source counts with `int`: the
length of the input is taken to be at most `INT_MAX`.
-/

namespace CodeC.Leetcode388
open Library

/-- What `nextline` returns, in its result and its reference parameters -/
structure Line where
  len : ℕ
  pos : ℕ
  level : ℕ
  isfile : Bool
  deriving DecidableEq

/-- The loop of `nextline` over the characters from `pos` on; the results are `pos`, `level` and
`isfile`. -/
def scan : List Char → ℕ → ℕ → Bool → ℕ × ℕ × Bool
  -- `input[input.size()]` is read, and it is the null character
  | [], pos, level, isfile => (pos + 1, level, isfile)
  | c :: rest, pos, level, isfile =>
    if c = '\n' then (pos + 1, level, isfile)
    else if c = '\t' then scan rest (pos + 1) (level + 1) isfile
    else if c = '.' then scan rest (pos + 1) level true
    else scan rest (pos + 1) level isfile

/-- 根据pos获取接下来的一行，level表示\t的数量，返回文件名长度 -/
def nextline (input : List Char) (pos : ℕ) : Line :=
  if pos ≥ input.length then ⟨0, pos, 0, false⟩
  else
    let r := scan (input.drop pos) pos 0 false
    -- 去掉'\n'
    ⟨r.1 - pos - r.2.1 - 1, r.1, r.2.1, r.2.2⟩

/-- `v.resize(n)` -/
def resize (v : List ℕ) (n : ℕ) : List ℕ := v.take n ++ List.replicate (n - v.length) 0

structure State where
  pos : ℕ
  max : ℕ
  v : List ℕ

/-- A round of the loop of `lengthLongestPath` -/
def body (input : List Char) (s : State) : Round State ℕ :=
  let l := nextline input s.pos
  if l.len > 0 then
    let v := resize s.v l.level
    let cur := v.getLastD 0 + 1 + l.len
    if !l.isfile then .again ⟨l.pos, s.max, v ++ [cur]⟩
    else if cur > s.max then .again ⟨l.pos, cur, v⟩
    else .again ⟨l.pos, s.max, v⟩
  else .leave s.max

def lengthLongestPath (fuel : ℕ) (input : List Char) : Option ℕ :=
  -- 去掉开头的/
  (loop (body input) fuel ⟨0, 0, []⟩).map fun max => if max > 0 then max - 1 else 0

end CodeC.Leetcode388
