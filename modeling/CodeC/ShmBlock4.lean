import CodeC.Library.Run
import CodeC.Library.LockWord
import Mathlib.Logic.Function.Basic

/-!
# The reference-counted segment of `shmblock4.cpp`

Objects of class `ShmBlock` share one shared-memory name. Each member function runs as one step,
and any system call in it can fail. A new segment is filled with zeros. The lock words of a segment
are left out: acquiring a block changes no field that is modelled here.
-/

namespace CodeC.ShmBlock4
open Library

/-- `sizeof(State)` -/
def sizeofState : ℤ := 448

/-- A shared-memory object: its length and the members of the `State` at its start. -/
structure Segment where
  size : ℕ
  blockSize : ℤ
  blockNum : ℤ
  refcount : ℤ
  deriving DecidableEq, Repr

/-- The value of `managed_shm_`; `failed` is `MAP_FAILED`. -/
inductive Mapping where
  | null
  | failed
  | segment (g : ℕ)
  deriving DecidableEq, Repr

/-- `state` and `buffer` are the segments that `state_` and `buffer_` point into. -/
structure ShmBlock where
  blockNum : ℤ
  blockSize : ℤ
  managedShm : Mapping
  state : Option ℕ
  buffer : Option ℕ
  deriving DecidableEq, Repr

def ShmBlock.cap (b : ShmBlock) : ℤ := wrap32 (sizeofState + b.blockNum * b.blockSize)

/-- The segment that has the name, and all segments created so far. -/
structure Memory where
  name : Option ℕ
  segment : ℕ → Segment
  created : ℕ

/-- The system calls that fail for a reason outside the model. -/
structure Faults where
  shmCreate : Bool
  shmOpen : Bool
  ftruncate : Bool
  fstat : Bool
  mmap : Bool
  deriving DecidableEq, Repr

/-- What a call of `OpenOrCreate` or `OpenOnly` leaves and returns, and whether it executed
`shm_unlink`. -/
structure Call where
  memory : Memory
  block : ShmBlock
  result : Bool
  unlinked : Bool

/-- `IncreaseRefCount` -/
def Memory.increaseRefCount (m : Memory) (g : ℕ) : Memory :=
  { m with
    segment := Function.update m.segment g
      { m.segment g with refcount := wrap32 ((m.segment g).refcount + 1) } }

/-- `DecreaseRefCount` -/
def Memory.decreaseRefCount (m : Memory) (g : ℕ) : Memory :=
  { m with
    segment := Function.update m.segment g
      { m.segment g with refcount := wrap32 ((m.segment g).refcount - 1) } }

/-- `CheckValid` -/
def checkValid (seg : Segment) (b : ShmBlock) : Bool :=
  seg.blockSize == b.blockSize && seg.blockNum == b.blockNum

def ShmBlock.attach (b : ShmBlock) (g : ℕ) : ShmBlock :=
  { b with managedShm := .segment g, state := some g }

/-- `ShmBlock::OpenOnly` -/
def openOnly (m : Memory) (b : ShmBlock) (f : Faults) : Call :=
  if b.managedShm ≠ .null then ⟨m, b, true, false⟩
  else
    match m.name with
    | none => ⟨m, b, false, false⟩
    | some g =>
      if f.shmOpen || f.fstat then ⟨m, b, false, false⟩
      else if f.mmap = true ∨ (m.segment g).size = 0 then
        ⟨m, { b with managedShm := .failed }, false, false⟩
      -- the object stays attached when the check fails
      else if !checkValid (m.segment g) b then ⟨m, b.attach g, false, false⟩
      else ⟨m.increaseRefCount g, { b.attach g with buffer := some g }, true, false⟩

/-- The segment of a new name, after `ftruncate` when `size` is not 0. -/
def Memory.create (m : Memory) (size : ℕ) : Memory :=
  { m with
    name := some m.created
    segment := Function.update m.segment m.created ⟨size, 0, 0, 0⟩
    created := m.created + 1 }

def Memory.shmUnlink (m : Memory) : Memory := { m with name := none }

/-- The placement new of `State` in segment `g`. -/
def Memory.construct (m : Memory) (g : ℕ) (b : ShmBlock) : Memory :=
  { m with
    segment := Function.update m.segment g
      { m.segment g with blockSize := b.blockSize, blockNum := b.blockNum, refcount := 0 } }

/-- `ShmBlock::OpenOrCreate` -/
def openOrCreate (m : Memory) (b : ShmBlock) (f : Faults) : Call :=
  if b.managedShm ≠ .null then ⟨m, b, true, false⟩
  else if f.shmCreate then ⟨m, b, false, false⟩
  else
    match m.name with
    | some _ => openOnly m b f
    | none =>
      let g := m.created
      if f.ftruncate = true ∨ b.cap < 0 then ⟨m.create 0, b, false, false⟩
      else if f.mmap = true ∨ b.cap = 0 then
        ⟨(m.create b.cap.toNat).shmUnlink, { b with managedShm := .failed }, false, true⟩
      else
        ⟨((m.create b.cap.toNat).construct g b).increaseRefCount g,
          { b.attach g with buffer := some g }, true, false⟩

/-- The live objects, and whether one of them has dereferenced a null pointer. -/
structure State (n : ℕ) where
  memory : Memory
  block : Fin n → Option ShmBlock
  crashed : Bool

inductive Action (n : ℕ) where
  | construct (i : Fin n) (blockNum blockSize : ℤ)
  | openOrCreate (i : Fin n) (f : Faults)
  | openOnly (i : Fin n) (f : Faults)
  | acquireBlockToWrite (i : Fin n) (f : Faults)
  | acquireBlockToRead (i : Fin n) (f : Faults)
  | destroy (i : Fin n)
  deriving DecidableEq

/-- `opened i g`: an open call of object `i` returned true and the object is attached to segment
`g`. `unlinked i`: a member function of object `i` executed `shm_unlink`. -/
inductive Event (n : ℕ) where
  | opened (i : Fin n) (g : ℕ)
  | unlinked (i : Fin n)
  | destroyed (i : Fin n)
  | crashed (i : Fin n)
  deriving DecidableEq

variable {n : ℕ}

def start : State n := ⟨⟨none, fun _ => ⟨0, 0, 0, 0⟩, 0⟩, fun _ => none, false⟩

def callEvents (i : Fin n) (c : Call) : List (Event n) :=
  (if c.unlinked then [.unlinked i] else []) ++
    match c.result, c.block.managedShm with
    | true, .segment g => [.opened i g]
    | _, _ => []

/-- Object `i` has made an open call. -/
def applyCall (s : State n) (i : Fin n) (c : Call) : State n × List (Event n) :=
  ({ s with memory := c.memory, block := Function.update s.block i (some c.block) },
    callEvents i c)

def crash (s : State n) (i : Fin n) : State n × List (Event n) :=
  ({ s with crashed := true }, [.crashed i])

/-- `AcquireBlockToWrite` and `AcquireBlockToRead`, which make the open call `c` when
`managed_shm_` is null and then lock a block through `state_`. -/
def acquire (s : State n) (i : Fin n) (b : ShmBlock) (c : Call) : State n × List (Event n) :=
  if b.managedShm = .null then applyCall s i c
  else if b.state = none then crash s i
  else (s, [])

/-- `ShmBlock::~ShmBlock` -/
def destroy (s : State n) (i : Fin n) (b : ShmBlock) : State n × List (Event n) :=
  match b.state with
  | none => crash s i
  | some g =>
    let m := s.memory.decreaseRefCount g
    if (s.memory.segment g).refcount = 1 then
      ({ s with memory := m.shmUnlink, block := Function.update s.block i none },
        [.destroyed i, .unlinked i])
    else ({ s with memory := m, block := Function.update s.block i none }, [.destroyed i])

/-- The constructor, a member function or the destructor of an object runs. -/
def perform (s : State n) : Action n → Option (State n × List (Event n))
  | .construct i blockNum blockSize =>
    match s.block i with
    | none =>
      some ({ s with
        block := Function.update s.block i (some ⟨blockNum, blockSize, .null, none, none⟩) }, [])
    | some _ => none
  | .openOrCreate i f => (s.block i).map fun b => applyCall s i (openOrCreate s.memory b f)
  | .openOnly i f => (s.block i).map fun b => applyCall s i (openOnly s.memory b f)
  | .acquireBlockToWrite i f => (s.block i).map fun b => acquire s i b (openOrCreate s.memory b f)
  | .acquireBlockToRead i f => (s.block i).map fun b => acquire s i b (openOnly s.memory b f)
  | .destroy i => (s.block i).map fun b => destroy s i b

def step (s : State n) (a : Action n) : Option (State n × List (Event n)) :=
  if s.crashed then none else perform s a

end CodeC.ShmBlock4
