import CodeC.ShmBlock4

/-!
# Opening a segment in `pubsub-shm-udp-3/shm.hpp`, with system calls that fail

The class `ShmBlock` of `shm.hpp` has the members of the one in `shmblock4.cpp`, and the system calls
are modelled in the same way.
-/

namespace CodeC.ShmOpen
open Library ShmBlock4

/-- `cap_`; `sizeof(State)` is 276. -/
def cap (b : ShmBlock) : ℤ := wrap32 (276 + b.blockNum * b.blockSize)

/-- `shm_open` with `O_CREAT` and without `O_EXCL`; the descriptor `none` is -1. -/
def shmOpenCreate (m : Memory) (fails : Bool) : Memory × Option ℕ :=
  if fails then (m, none)
  else
    match m.name with
    | some g => (m, some g)
    | none => (m.create 0, some m.created)

/-- `ftruncate`, with `none` for the result -1 -/
def ftruncate (m : Memory) (fd : Option ℕ) (length : ℤ) (fails : Bool) : Option Memory :=
  match fd with
  | none => none
  | some g =>
    if fails = true ∨ length < 0 then none
    else some { m with
      segment := Function.update m.segment g { m.segment g with size := length.toNat } }

/-- `ShmBlock::Create`. `eexist` says that `errno` is `EEXIST` when `shm_open` has failed; the call
then goes on with the descriptor -1. -/
def create (m : Memory) (b : ShmBlock) (f : Faults) (eexist : Bool) : Call :=
  if b.managedShm ≠ .null then ⟨m, b, true, false⟩
  else
    let fd := (shmOpenCreate m f.shmCreate).2
    let m := (shmOpenCreate m f.shmCreate).1
    if fd = none ∧ eexist = false then ⟨m, b, false, false⟩
    else
      match ftruncate m fd (cap b) f.ftruncate, fd with
      | some m, some g =>
        if f.mmap = true ∨ cap b = 0 then
          ⟨m.shmUnlink, { b with managedShm := .failed }, false, true⟩
        else ⟨m.construct g b, { b.attach g with buffer := some g }, true, false⟩
      | _, _ => ⟨m, b, false, false⟩

/-- `ShmBlock::Open` -/
def openShm (m : Memory) (b : ShmBlock) (f : Faults) : Call :=
  if b.managedShm ≠ .null then ⟨m, b, true, false⟩
  else
    match m.name with
    | none => ⟨m, b, false, false⟩
    | some g =>
      if f.shmOpen || f.fstat then ⟨m, b, false, false⟩
      else if f.mmap = true ∨ (m.segment g).size = 0 then
        ⟨m, { b with managedShm := .null }, false, false⟩
      else ⟨m, { b.attach g with buffer := some g }, true, false⟩

/-- The test at the head of `AcquireBlockToWrite` and `AcquireBlockToRead`, in both files: the open
call that is made first, or `none` when the object is used as it is. -/
def openFirst (b : ShmBlock) (call : Call) : Option Call :=
  if b.managedShm = .null then some call else none

end CodeC.ShmOpen
