import CodeC.Library.BoundedFifo
import Mathlib.Algebra.Group.Nat.Defs

/-!
# The bounded blocking queue of `util/bounded_blocking_queue.h`

`queue_put`, `queue_get` and `queue_close` as critical sections of a monitor: the mutex makes
the section from `pthread_mutex_lock` to the next wait or unlock one step, and a thread that
returns from `pthread_cond_wait` runs the loop body again. `size_t` arithmetic is modulo `2 ^ 64`.
-/

namespace CodeC.BoundedQueue

open Library Library.Monitor Library.BoundedFifo

variable {α : Type}

/-- `queue_t`. `slots` is the number of pointers that fit in the block `data` points to, and
`data` the contents of this block. -/
structure Queue (α : Type) where
  size : ℕ
  outPos : ℕ
  inPos : ℕ
  closed : Bool
  slots : ℕ
  data : ℕ → α

/-- What a call returns. `null` is the `NULL` of `queue_get` on a closed queue, kept apart from
an item because a null pointer may also be put. -/
inductive Returned (α : Type) where
  | code (c : ℤ)
  | item (x : α)
  | null
  | unit

/-- A returned value and the slot of `data` that the call has written or read. -/
structure Reply (α : Type) where
  value : Returned α
  slot : Option ℕ

/-- `sizeof(void *)`. -/
def pointerSize : ℕ := 8

/-- The bytes `queue_init` asks `malloc` for, `sizeof(*q->data) * q->size` -/
def requestedBytes (size : ℕ) : ℕ := pointerSize * ((size + 1) % 2 ^ 64) % 2 ^ 64

/-- `malloc` returns the contents of the new block, or `none` for `NULL`. -/
def queueInit (malloc : ℕ → Option (ℕ → α)) (q : Option (Queue α)) (size : ℕ) :
    ℤ × Option (Queue α) :=
  match q with
  | none => (-1, none)
  | some q =>
    if size = 0 then (-1, some q)
    else
      let q := { q with size := (size + 1) % 2 ^ 64, outPos := 0, inPos := 0, closed := false }
      let bytes := pointerSize * q.size % 2 ^ 64
      match malloc bytes with
      | none => (-1, some { q with slots := 0 })
      | some data => (0, some { q with slots := bytes / pointerSize, data := data })

def queueClose (q : Queue α) : Outcome (Queue α) (Reply α) Cond :=
  .ret { q with closed := true } ⟨.unit, none⟩ none [.notEmpty, .notFull]

def queuePut (q : Queue α) (item : α) : Outcome (Queue α) (Reply α) Cond :=
  if q.closed then .ret q ⟨.code (-1), none⟩ none []
  else if (q.inPos + 1) % 2 ^ 64 % q.size ≠ q.outPos then
    .ret
      { q with
        data := Function.update q.data q.inPos item
        inPos := (q.inPos + 1) % 2 ^ 64 % q.size }
      ⟨.code 0, some q.inPos⟩ (some .notEmpty) []
  else .wait .notFull

def queueGet (q : Queue α) : Outcome (Queue α) (Reply α) Cond :=
  if q.closed then .ret q ⟨.null, none⟩ none []
  else if q.inPos ≠ q.outPos then
    .ret { q with outPos := (q.outPos + 1) % 2 ^ 64 % q.size }
      ⟨.item (q.data q.outPos), some q.outPos⟩ (some .notFull) []
  else .wait .notEmpty

def queueBody (q : Queue α) : Op α → Outcome (Queue α) (Reply α) Cond
  | .put x => queuePut q x
  | .get => queueGet q
  | .close => queueClose q

/-- The items whose `queue_put` returned 0, in critical-section order. -/
def putItems (l : List (Op α × Reply α)) : List α :=
  l.filterMap fun p => match p with
    | (.put x, ⟨.code c, _⟩) => if c = 0 then some x else none
    | _ => none

/-- The items returned by `queue_get`, in critical-section order. -/
def gotItems (l : List (Op α × Reply α)) : List α :=
  l.filterMap fun p => match p with
    | (_, ⟨.item x, _⟩) => some x
    | _ => none

/-- The slots written by `queue_put`, in critical-section order. -/
def putSlots (l : List (Op α × Reply α)) : List ℕ :=
  l.filterMap fun p => match p with
    | (.put _, r) => r.slot
    | _ => none

/-- The slots read by `queue_get`, in critical-section order. -/
def gotSlots (l : List (Op α × Reply α)) : List ℕ :=
  l.filterMap fun p => match p with
    | (.get, r) => r.slot
    | _ => none

/-- The number of items in the queue. -/
def queued (q : Queue α) : ℕ := (q.inPos + q.size - q.outPos) % q.size

/-- The number of items the queue has still room for. -/
def freeSlots (q : Queue α) : ℕ := q.size - 1 - queued q

end CodeC.BoundedQueue
