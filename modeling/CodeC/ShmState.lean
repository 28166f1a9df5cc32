import CodeC.Library.Run
import CodeC.Library.Count
import CodeC.Library.LockWord

/-!
# The lock table `State` of `pubsub-shm-udp-3/shm.hpp`

One writer and `n` readers use the table through `LockForWrite`, `ReleaseWriteLock`,
`LockForRead` and `ReleaseReadLock`. Every atomic load, store, compare-exchange and
`fetch_sub` is one step. The compare-exchanges are weak, so each has a spurious failure.
-/

namespace CodeC.ShmState
open Library

def kRWLockFree : ℤ := 0
def kWriteExclusive : ℤ := -1

/-- The fields of `State` that the lock operations read or write. -/
structure State where
  blockNum : ℕ
  writePos : ℕ
  readPos : ℤ
  locks : ℕ → ℤ

/-- The constructor `State(block_num, block_size)` with its default member values. -/
def State.new (blockNum : ℕ) : State := ⟨blockNum, 0, -1, fun _ => 0⟩

/-- Control points of the writer: `locking i` before the compare-exchange on `locks_[i]`,
`writing i` from its success to the store to `locks_[i]`, `releasing i` before the store of
`read_pos_`. -/
inductive WriterPc where
  | idle
  | locking (i : ℕ)
  | writing (i : ℕ)
  | releasing (i : ℕ)
  deriving DecidableEq, Repr

inductive ReaderPc where
  | idle
  | locking
  | gotPos (i : ℕ)
  | gotLock (i : ℕ) (lockNum : ℤ)
  | reading (i : ℕ)
  deriving DecidableEq, Repr

structure System (n : ℕ) where
  state : State
  writer : WriterPc
  reader : Fin n → ReaderPc

inductive Action (n : ℕ) where
  | writer
  | writerSpurious
  | reader (r : Fin n)
  | readerSpurious (r : Fin n)
  deriving DecidableEq

inductive Event (n : ℕ) where
  | writeLocked (i : ℕ)
  | writeReleased (i : ℕ)
  | readPosStored (i : ℕ)
  | readRefused (r : Fin n)
  | readLocked (r : Fin n) (i : ℕ)
  | readReleased (r : Fin n) (i : ℕ)
  deriving DecidableEq

def start {n : ℕ} (blockNum : ℕ) : System n := ⟨State.new blockNum, .idle, fun _ => .idle⟩

variable {n : ℕ}

/-- One iteration of the loop of `LockForWrite`. -/
def lockForWriteCas (s : System n) (i : ℕ) : System n × List (Event n) :=
  if s.state.locks i = kRWLockFree then
    ({ s with
        state := { s.state with locks := Function.update s.state.locks i kWriteExclusive }
        writer := .writing i }, [.writeLocked i])
  else ({ s with writer := .locking ((i + 1) % s.state.blockNum) }, [])

/-- The first store of `ReleaseWriteLock`. -/
def releaseWriteLock (s : System n) (i : ℕ) : System n × List (Event n) :=
  ({ s with
      state := { s.state with locks := Function.update s.state.locks i kRWLockFree }
      writer := .releasing i }, [.writeReleased i])

/-- The second store of `ReleaseWriteLock`. -/
def releaseWriteLockPos (s : System n) (i : ℕ) : System n × List (Event n) :=
  ({ s with state := { s.state with readPos := i }, writer := .idle }, [.readPosStored i])

def System.setReader (s : System n) (r : Fin n) (pc : ReaderPc) : System n :=
  { s with reader := Function.update s.reader r pc }

/-- `LockForRead` loads `read_pos_` and returns -1 when nothing has been written. -/
def lockForReadPos (s : System n) (r : Fin n) : System n × List (Event n) :=
  if s.state.readPos < 0 then (s.setReader r .idle, [.readRefused r])
  else (s.setReader r (.gotPos s.state.readPos.toNat), [])

/-- `LockForRead` loads `locks_[i]` into `lock_num`. The guard that follows compares the
index `i`, not `lock_num`, with `kRWLockFree`. -/
def lockForReadLoad (s : System n) (r : Fin n) (i : ℕ) : System n × List (Event n) :=
  if (i : ℤ) < kRWLockFree then (s.setReader r .locking, [])
  else (s.setReader r (.gotLock i (s.state.locks i)), [])

/-- The compare-exchange of `LockForRead`. -/
def lockForReadCas (s : System n) (r : Fin n) (i : ℕ) (lockNum : ℤ) :
    System n × List (Event n) :=
  if s.state.locks i = lockNum then
    ({ s with
        state := { s.state with
          locks := Function.update s.state.locks i (wrap32 (lockNum + 1)) }
        reader := Function.update s.reader r (.reading i) }, [.readLocked r i])
  else (s.setReader r .locking, [])

def releaseReadLock (s : System n) (r : Fin n) (i : ℕ) : System n × List (Event n) :=
  ({ s with
      state := { s.state with
        locks := Function.update s.state.locks i (wrap32 (s.state.locks i - 1)) }
      reader := Function.update s.reader r .idle }, [.readReleased r i])

def step (s : System n) : Action n → Option (System n × List (Event n))
  | .writer =>
    match s.writer with
    | .idle => some ({ s with writer := .locking s.state.writePos }, [])
    | .locking i => some (lockForWriteCas s i)
    | .writing i => some (releaseWriteLock s i)
    | .releasing i => some (releaseWriteLockPos s i)
  | .writerSpurious =>
    match s.writer with
    | .locking i => some ({ s with writer := .locking ((i + 1) % s.state.blockNum) }, [])
    | _ => none
  | .reader r =>
    match s.reader r with
    | .idle => some (s.setReader r .locking, [])
    | .locking => some (lockForReadPos s r)
    | .gotPos i => some (lockForReadLoad s r i)
    | .gotLock i lockNum => some (lockForReadCas s r i lockNum)
    | .reading i => some (releaseReadLock s r i)
  | .readerSpurious r =>
    match s.reader r with
    | .gotLock _ _ => some (s.setReader r .locking, [])
    | _ => none

end CodeC.ShmState
