import CodeC.Library.Loop
import Mathlib.Data.Int.Notation
import Mathlib.Data.List.Basic

/-!
# The n queens solvers `leetcode/51.cpp` and `leetcode/51-2.cpp`

`51.cpp` keeps a whole board and `51-2.cpp` a vector of columns that grows and shrinks. Both test
the rows from the top with the same comparisons (`firstIllegal`). The definitions of `51-2.cpp`
are in the namespace `V2`.
-/

namespace CodeC.Leetcode51
open Library

/-- The queen of row `i` stands in the column or on a diagonal of an earlier one. -/
def attacked (d : List ℤ) (i : ℕ) : Bool :=
  (List.range i).any fun j =>
    d.getD i 0 == d.getD j 0 || d.getD i 0 - d.getD j 0 == (i : ℤ) - j ||
      d.getD i 0 - d.getD j 0 == (j : ℤ) - i

/-- The first row whose queen is attacked from above. -/
def firstIllegal (d : List ℤ) : Option ℕ := (List.range d.length).find? (attacked d)

/-! ## `51.cpp` -/

/-- `vector<string>` -/
abbrev Board := List (List Char)

/-- `find('Q')`, with -1 for `npos` -/
def find (row : List Char) : ℤ :=
  match row.findIdx? (· == 'Q') with
  | some k => k
  | none => -1

/-- `res[i][j] = c` -/
def write (res : Board) (i j : ℕ) (c : Char) : Board := res.modify i fun row => row.set j c

/-- The queen of row `i` goes from column `second` to the next. -/
def advance (res : Board) (i : ℕ) (second : ℤ) : Board :=
  write (if second ≥ 0 then write res i second.toNat '.' else res) i (second + 1).toNat 'Q'

/-- The queen of row `i` goes from column `second` back to column 0. -/
def reset (res : Board) (i : ℕ) (second : ℤ) : Board :=
  write (write res i second.toNat '.') i 0 'Q'

/-- The recursion of `next` over the row `pos.first` -/
def nextRow (res : Board) : ℕ → ℤ → Option Board
  | 0, second => if second < (res.length : ℤ) - 1 then some (advance res 0 second) else none
  | i + 1, second =>
    if second < (res.length : ℤ) - 1 then some (advance res (i + 1) second)
    else
      let res := reset res (i + 1) second
      nextRow res i (find (res.getD i []))

/-- res从(i,j)处选择下一个值，不管是否合法. The result false is `none`; the board is then not read any
more. -/
def next (res : Board) (pos : ℤ × ℤ) : Option Board :=
  if pos.1 < 0 then none else nextRow res pos.1.toNat pos.2

/-- 找到最先不合法的行0~n-1。n表示都合法 -/
def illegal (res : Board) : ℤ × ℤ :=
  let d := res.map find
  match firstIllegal d with
  | some i => (i, d.getD i 0)
  | none => (res.length, -1)

structure State where
  res : Board
  pos : ℤ × ℤ
  results : List Board

/-- A round of the loop of `solveNQueens` -/
def body (n : ℕ) (s : State) : Round State (List Board) :=
  match next s.res s.pos with
  | none => .leave s.results
  | some res =>
    if (illegal res).1 = n then
      .again ⟨res, ((n : ℤ) - 1, find (res.getD (n - 1) [])), s.results ++ [res]⟩
    else .again ⟨res, illegal res, s.results⟩

def solveNQueens (fuel n : ℕ) : Option (List Board) :=
  let res := List.replicate n ((List.replicate n '.').set 0 'Q')
  loop (body n) fuel ⟨res, ((n : ℤ) - 1, -1), []⟩

/-! ## `51-2.cpp` -/

namespace V2

/-- The loop of `next`, with the elements of `r` from the back to the front -/
def nextLoop (n : ℕ) : List ℤ → Option (List ℤ)
  | [] => none
  | a :: r => if a < (n : ℤ) - 1 then some ((a + 1) :: r) else (nextLoop n r).map (0 :: ·)

/-- 获取下一个可能。无论是否合法. The result false is `none`; `r` is then not read any more. -/
def next (n : ℕ) (r : List ℤ) : Option (List ℤ) := (nextLoop n r.reverse).map List.reverse

/-- 返回是r是否合法。如果不合法，只保留第一个不合法的值。 -/
def legal (r : List ℤ) : Bool × List ℤ :=
  match firstIllegal r with
  | some i => (false, r.take (i + 1))
  | none => (true, r)

def toResults (n : ℕ) (rs : List (List ℤ)) : List Board :=
  rs.map fun r => (List.range n).map fun j => (List.replicate n '.').set (r.getD j 0).toNat 'Q'

structure State where
  r : List ℤ
  rs : List (List ℤ)

/-- A round of the loop of `solveNQueens` -/
def body (n : ℕ) (s : State) : Round State (List (List ℤ)) :=
  match next n s.r with
  | none => .leave s.rs
  | some r =>
    match legal r with
    | (true, r) => .again (if r.length = n then ⟨r, s.rs ++ [r]⟩ else ⟨r ++ [-1], s.rs⟩)
    | (false, r) => .again ⟨r, s.rs⟩

def solveNQueens (fuel n : ℕ) : Option (List Board) :=
  (loop (body n) fuel ⟨[-1], []⟩).map (toResults n)

end V2

end CodeC.Leetcode51
