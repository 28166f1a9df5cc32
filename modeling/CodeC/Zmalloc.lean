import CodeC.Library.Run
import Mathlib.Data.List.Basic

/-!
# The counter of allocated memory in `zmalloc.c`

The variant without `HAVE_MALLOC_SIZE`, in which the requested size stands before each block. The
macros that update `used_memory` round the size up to a multiple of `sizeof(long)`, and add the
rounded size as long as `zmalloc_thread_safe` is not set and the size itself when it is. The calls do not
overlap: each is one step, as if a single thread made them all.
-/

namespace CodeC.Zmalloc
open Library

/-- `PREFIX_SIZE` -/
def prefixSize : UInt64 := 8

/-- A block that has been handed out, with the size stored before it -/
structure Block where
  ptr : ℕ
  size : UInt64
  deriving DecidableEq

structure State where
  usedMemory : UInt64
  threadSafe : Bool
  blocks : List Block

def init : State := ⟨0, false, []⟩

/-- `sizeof(long)-(n&(sizeof(long)-1))`, or nothing for a multiple -/
def padding (n : UInt64) : UInt64 := if n &&& 7 ≠ 0 then 8 - (n &&& 7) else 0

/-- `update_zmalloc_stat_alloc` -/
def statAlloc (s : State) (n : UInt64) : State :=
  { s with usedMemory := s.usedMemory + if s.threadSafe then n else n + padding n }

/-- `update_zmalloc_stat_free` -/
def statFree (s : State) (n : UInt64) : State :=
  { s with usedMemory := s.usedMemory - if s.threadSafe then n else n + padding n }

def State.lookup (s : State) (ptr : ℕ) : Option Block := s.blocks.find? fun b => b.ptr == ptr

def State.remove (s : State) (ptr : ℕ) : State :=
  { s with blocks := s.blocks.eraseP fun b => b.ptr == ptr }

/-- The rest of `zmalloc` and of `zcalloc`, when the allocator has returned `ptr` -/
def handOut (s : State) (ptr : ℕ) (size : UInt64) : State :=
  statAlloc { s with blocks := ⟨ptr, size⟩ :: s.blocks } (size + prefixSize)

def zmalloc (s : State) (ptr : ℕ) (size : UInt64) : State := handOut s ptr size

def zcalloc (s : State) (ptr : ℕ) (size : UInt64) : State := handOut s ptr size

/-- `realloc` or `malloc` has returned `newptr`. A pointer that was not handed out has no block. -/
def zrealloc (s : State) (ptr : Option ℕ) (newptr : ℕ) (size : UInt64) : Option State :=
  match ptr with
  | none => some (zmalloc s newptr size)
  | some ptr =>
    match s.lookup ptr with
    | none => none
    | some b =>
      let oldsize := b.size
      let s := s.remove ptr
      some (statAlloc (statFree { s with blocks := ⟨newptr, size⟩ :: s.blocks } oldsize) size)

def zmallocSize (b : Block) : UInt64 := b.size + padding b.size + prefixSize

def zfree (s : State) (ptr : Option ℕ) : Option State :=
  match ptr with
  | none => some s
  | some ptr =>
    match s.lookup ptr with
    | none => none
    | some b => some ((statFree s (b.size + prefixSize)).remove ptr)

/-- The block for a string of `len` characters -/
def zstrdup (s : State) (ptr len : ℕ) : State := zmalloc s ptr (UInt64.ofNat len + 1)

def zmallocUsedMemory (s : State) : UInt64 := s.usedMemory

def zmallocEnableThreadSafeness (s : State) : State := { s with threadSafe := true }

inductive Action where
  | malloc (ptr : ℕ) (size : UInt64)
  | calloc (ptr : ℕ) (size : UInt64)
  | realloc (ptr : Option ℕ) (newptr : ℕ) (size : UInt64)
  | free (ptr : Option ℕ)
  | strdup (ptr len : ℕ)
  | enable

/-- One call. A call that runs out of memory ends in the handler, which aborts. -/
def step (s : State) : Action → Option State
  | .malloc ptr size => some (zmalloc s ptr size)
  | .calloc ptr size => some (zcalloc s ptr size)
  | .realloc ptr newptr size => zrealloc s ptr newptr size
  | .free ptr => zfree s ptr
  | .strdup ptr len => some (zstrdup s ptr len)
  | .enable => some (zmallocEnableThreadSafeness s)

end CodeC.Zmalloc
