import CodeC.Library.Loop
import Mathlib.Logic.Function.Basic

/-!
# The sudoku solvers `leetcode/37.cpp` and `leetcode/37-2.cpp`

Both fill the blanks in the order of the rows and take back the last one, from a stack of
positions, when no digit is left for a blank. `37.cpp` counts the character of the cell up itself;
`37-2.cpp` starts behind it. The definitions of `37-2.cpp` are in the namespace `V2`.

A character is its code. The board has nine rows and columns; `b (i, j)` is `b[i][j]`.
-/

namespace CodeC.Leetcode37
open Library

abbrev Pos := ℕ × ℕ

/-- `vector<vector<char>>` -/
abbrev Board := Pos → ℕ

/-- The code of `'.'` -/
def dot : ℕ := 46

/-- The code of `'1'` -/
def one : ℕ := 49

/-- The code of `':'`, the character after `'9'`. ':'表示没选择了 -/
def colon : ℕ := 58

/-- The same in both files. -/
def legal (b : Board) (pos : Pos) (v : ℕ) : Bool :=
  -- 行
  ((List.range 9).all fun i => !(i != pos.2 && b (pos.1, i) == v)) &&
  -- 列
  ((List.range 9).all fun i => !(i != pos.1 && b (i, pos.2) == v)) &&
  -- 块
  ((List.range' (pos.1 / 3 * 3) 3).all fun i => (List.range' (pos.2 / 3 * 3) 3).all fun j =>
    !((i != pos.1 || j != pos.2) && b (i, j) == v))

/-- The loop `for (char c = v; c < ':'; c++)` up to the first legal `c` -/
def firstLegal (b : Board) (pos : Pos) (v : ℕ) : Option ℕ :=
  (List.range' v (colon - v)).find? (legal b pos)

structure State where
  b : Board
  pos : Pos
  s : List Pos

/-- What the two files do in their own way: `nextpos`, `nextval`, and what happens to the cell of a
position that has been taken from the stack. -/
structure Version where
  nextpos : Board → Pos → Option Pos
  nextval : Board → Pos → Bool × Board
  again : Board → Pos → Board

/-- The inner loop of `solveSudoku`, with `none` for the top of an empty stack. -/
def Version.retreat (V : Version) (b : Board) (pos : Pos) : List Pos → Option State
  | [] => if (V.nextval b pos).1 then some ⟨(V.nextval b pos).2, pos, []⟩ else none
  | q :: s =>
    if (V.nextval b pos).1 then some ⟨(V.nextval b pos).2, pos, q :: s⟩
    else
      -- 撤销已经写入的内容，弹出上一个
      V.retreat (V.again (Function.update (V.nextval b pos).2 pos dot) q) q s

/-- A round of the loop of `solveSudoku` -/
def Version.body (V : Version) (s : State) : Round State (Option Board) :=
  match V.nextpos s.b s.pos with
  | none => .leave (some s.b)
  | some pos =>
    match V.retreat s.b pos s.s with
    | none => .leave none
    | some s => .again ⟨s.b, s.pos, s.pos :: s.s⟩

/-- On a fresh object: the stack is empty. -/
def Version.solveSudoku (V : Version) (fuel : ℕ) (b : Board) : Option (Option Board) :=
  loop V.body fuel ⟨b, (0, 0), []⟩

/-! ## `37.cpp` -/

/-- 下一个空白位置'.'，含pos。成功返回true -/
def nextpos (b : Board) (pos : Pos) : Option Pos :=
  let i := pos.1 * 9 + pos.2
  ((List.range' i (81 - i)).find? fun k => b (k / 9, k % 9) == dot).map fun k => (k / 9, k % 9)

/-- `v` is a reference to the cell of `pos`. -/
def nextval (b : Board) (pos : Pos) : Bool × Board :=
  let b := if b pos = dot then Function.update b pos one else b
  match firstLegal b pos (b pos) with
  | some c => (true, Function.update b pos c)
  | none => (false, b)

/-- 取下一个值 -/
def version : Version := ⟨nextpos, nextval, fun b q => Function.update b q (b q + 1)⟩

def solveSudoku (fuel : ℕ) (b : Board) : Option (Option Board) := version.solveSudoku fuel b

/-! ## `37-2.cpp` -/

namespace V2

/-- The loops of `nextpos` over the rows that are left, from column `y` of the first one -/
def nextposRows (b : Board) : List ℕ → ℕ → Option Pos
  | [], _ => none
  | i :: rows, y =>
    match (List.range' y (9 - y)).find? fun j => b (i, j) == dot with
    | some j => some (i, j)
    | none => nextposRows b rows 0

/-- 从p起寻找第一个.，含p。返回寻找成功。 -/
def nextpos (b : Board) (p : Pos) : Option Pos := nextposRows b (List.range' p.1 (9 - p.1)) p.2

/-- 把p更新为下一个可行的值，不含当前值。返回更新成功 -/
def nextval (b : Board) (p : Pos) : Bool × Board :=
  let v := if b p = dot then one - 1 else b p
  match firstLegal b p (v + 1) with
  | some c => (true, Function.update b p c)
  | none => (false, b)

/-- The cell keeps its digit. -/
def version : Version := ⟨nextpos, nextval, fun b _ => b⟩

def solveSudoku (fuel : ℕ) (b : Board) : Option (Option Board) := version.solveSudoku fuel b

end V2

end CodeC.Leetcode37
