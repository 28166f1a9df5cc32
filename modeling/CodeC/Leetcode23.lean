import CodeC.Library.Run
import Mathlib.Data.Int.Notation
import Mathlib.Logic.Function.Basic

/-!
# Merging sorted lists with a heap: `leetcode/23.cpp`

The nodes are cells of a memory. The priority queue is the collection of the nodes it holds; `top`
may return any of them with the least value, so the choice is the action of a step. The pointer
`ListNode** next` points to `head` or to the link of a node. The loop that filters the null pointers goes
on with the iterator it has passed to `erase`; it is read as the same position in the vector, where the
next element has moved.
-/

namespace CodeC.Leetcode23

abbrev Loc := ℕ

/-- `ListNode` -/
structure Node where
  val : ℤ
  next : Option Loc

/-- What `ListNode** next` points to -/
inductive Slot where
  | head
  | next (l : Loc)
  deriving DecidableEq

structure State where
  mem : Loc → Node
  q : List Loc
  head : Option Loc
  next : Slot

/-- 过滤掉nullptr -/
def eraseNulls : List (Option Loc) → List Loc
  | [] => []
  | none :: lists => eraseNulls lists
  | some l :: lists => l :: eraseNulls lists

/-- `*next = t;` -/
def State.assign (s : State) (t : Loc) : State :=
  match s.next with
  | .head => { s with head := some t }
  | .next l => { s with mem := Function.update s.mem l { s.mem l with next := some t } }

/-- The body of the loop, after `top` has returned `t` -/
def State.take (s : State) (t : Loc) : State :=
  let s := { s with q := s.q.erase t ++ (s.mem t).next.toList }
  { s.assign t with next := .next t }

/-- `t` is a node of the queue with the least value. -/
def IsTop (s : State) (t : Loc) : Prop := t ∈ s.q ∧ ∀ u ∈ s.q, (s.mem t).val ≤ (s.mem u).val

instance (s : State) (t : Loc) : Decidable (IsTop s t) :=
  inferInstanceAs (Decidable (t ∈ s.q ∧ ∀ u ∈ s.q, (s.mem t).val ≤ (s.mem u).val))

/-- A round of the loop in which `top` returns `t`. The event is the node taken. -/
def step (s : State) (t : Loc) : Option (State × List Loc) :=
  if IsTop s t then some (s.take t, [t]) else none

/-- The state before the loop -/
def start (mem : Loc → Node) (lists : List (Option Loc)) : State :=
  ⟨mem, eraseNulls lists, none, .head⟩

end CodeC.Leetcode23
