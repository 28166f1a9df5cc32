import CodeC.Library.BoundedFifo
import CodeC.Library.LockWord

/-!
# The class template of `util/bounded_blocking_queue.hpp`

`push_back`, `pop_front` and `close` as critical sections of a monitor. A wait with a predicate
is a loop, so a woken thread evaluates the predicate again. The constructor computes the size
of the array and the modulus of the indices separately, the latter as an `int` that is then
converted to `size_t`.
-/

namespace CodeC.BoundedBlockingQueue

open Library Library.Monitor Library.BoundedFifo

variable {T : Type}

/-- `elems` is the number of elements of the array `data_` points to. -/
structure Queue (T : Type) where
  elems : ℕ
  data : ℕ → T
  capacity : ℕ
  inPos : ℕ
  outPos : ℕ
  closed : Bool

/-- What a call returns: `push_back` its flag, `pop_front` the value it stored in `v` unless it
returned false. -/
inductive Returned (T : Type) where
  | pushed (ok : Bool)
  | popped (v : Option T)
  | unit

/-- A returned value and the index at which the call has accessed `data_`. -/
structure Reply (T : Type) where
  value : Returned T
  slot : Option ℕ

/-- The constructor, `none` when `new T[max_elems]` throws because of a negative length. `heap`
is the contents of the new array. -/
def construct (heap : ℕ → T) (maxElems : ℤ) : Option (Queue T) :=
  if maxElems < 0 then none
  else some
    { elems := maxElems.toNat
      data := heap
      capacity := (wrap32 (maxElems + 1) % 2 ^ 64).toNat
      inPos := 0
      outPos := 0
      closed := false }

def full (q : Queue T) : Bool := (q.inPos + 1) % 2 ^ 64 % q.capacity == q.outPos

def empty (q : Queue T) : Bool := q.inPos == q.outPos

def pushBack (q : Queue T) (v : T) : Outcome (Queue T) (Reply T) Cond :=
  if q.closed || !full q then
    if q.closed then .ret q ⟨.pushed false, none⟩ none []
    else
      .ret
        { q with
          data := Function.update q.data q.inPos v
          inPos := (q.inPos + 1) % 2 ^ 64 % q.capacity }
        ⟨.pushed true, some q.inPos⟩ (some .notEmpty) []
  else .wait .notFull

def popFront (q : Queue T) : Outcome (Queue T) (Reply T) Cond :=
  if q.closed || !empty q then
    if q.closed then .ret q ⟨.popped none, none⟩ none []
    else
      .ret { q with outPos := (q.outPos + 1) % 2 ^ 64 % q.capacity }
        ⟨.popped (some (q.data q.outPos)), some q.outPos⟩ (some .notFull) []
  else .wait .notEmpty

def close (q : Queue T) : Outcome (Queue T) (Reply T) Cond :=
  .ret { q with closed := true } ⟨.unit, none⟩ none [.notEmpty, .notFull]

def queueBody (q : Queue T) : Op T → Outcome (Queue T) (Reply T) Cond
  | .put v => pushBack q v
  | .get => popFront q
  | .close => close q

/-- The values whose `push_back` returned true, in critical-section order. -/
def pushedValues (l : List (Op T × Reply T)) : List T :=
  l.filterMap fun p => match p with
    | (.put v, ⟨.pushed true, _⟩) => some v
    | _ => none

/-- The values handed out by `pop_front`, in critical-section order. -/
def poppedValues (l : List (Op T × Reply T)) : List T :=
  l.filterMap fun p => match p with
    | (_, ⟨.popped v, _⟩) => v
    | _ => none

/-- The indices at which `push_back` has written. -/
def pushSlots (l : List (Op T × Reply T)) : List ℕ :=
  l.filterMap fun p => match p with
    | (.put _, r) => r.slot
    | _ => none

/-- The indices at which `pop_front` has read. -/
def popSlots (l : List (Op T × Reply T)) : List ℕ :=
  l.filterMap fun p => match p with
    | (.get, r) => r.slot
    | _ => none

end CodeC.BoundedBlockingQueue
