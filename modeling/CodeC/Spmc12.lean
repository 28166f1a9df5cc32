import CodeC.Library.Run
import Mathlib.Data.Int.Basic
import Mathlib.Logic.Function.Basic

/-!
# The shared-memory ring of `spmc12.c`

The ring of `spmc10.c` with a `pthread_rwlock_t` for every entry in place of a counter. Every
call of a pthread function and every atomic builtin is one step, and steps of the producer and
of the `n` consumers interleave arbitrarily. An entry is addressed by its index.
-/

namespace CodeC.Spmc12
open Library

/-- `ENTRY_NUM_MAX` -/
def entryNumMax : ℤ := 64

/-- `pthread_rwlock_t`: whether it is held for writing, and how often it is held for reading. -/
structure RwLock where
  writer : Bool
  readers : ℕ
  deriving DecidableEq, Repr

/-- `pthread_rwlock_init` -/
def rwlockInit : RwLock := ⟨false, 0⟩

/-- `pthread_rwlock_tryrdlock`; `none` is the return of an error. -/
def tryrdlock (l : RwLock) : Option RwLock :=
  if l.writer then none else some { l with readers := l.readers + 1 }

/-- `pthread_rwlock_unlock` releases one hold. -/
def unlock (l : RwLock) : RwLock :=
  if l.writer then { l with writer := false } else { l with readers := l.readers - 1 }

/-- The fields of `spmc_t` that the modelled functions read or write. -/
structure Spmc where
  size : ℕ
  capacity : ℕ
  bufSize : ℕ
  writePos : ℕ
  readPos : ℕ
  rwlocks : ℕ → RwLock

/-- `spmc_init` on the segment `seg` that `shmget` and `shmat` return; `none` is the exit at
the head. A consumer attaches without writing. -/
def spmcInit (entryNum bufSize : ℤ) (isProducer : Bool) (seg : Spmc) : Option Spmc :=
  if entryNum ≤ 0 ∨ entryNum > entryNumMax ∨ bufSize ≤ 0 then none
  else if isProducer then
    some {
      size := 0
      capacity := entryNum.toNat
      bufSize := bufSize.toNat
      writePos := 0
      readPos := 0
      rwlocks := fun i => if i < entryNum.toNat then rwlockInit else seg.rwlocks i }
  else some seg

/-- Control points of the producer. It is `scanning i` before it tries the lock of entry `i`,
`writing i` from the success to the unlock, and `ending i` before the store of `read_pos`. -/
inductive ProducerPc where
  | idle
  | scanning (i : ℕ)
  | writing (i : ℕ)
  | ending (i : ℕ)
  deriving DecidableEq, Repr

inductive ConsumerPc where
  | idle
  | allocating
  | gotPos (i : ℕ)
  | reading (i : ℕ)
  deriving DecidableEq, Repr

structure State (n : ℕ) where
  shm : Spmc
  producer : ProducerPc
  consumer : Fin n → ConsumerPc

inductive Action (n : ℕ) where
  | producer
  | consumer (k : Fin n)
  deriving DecidableEq

inductive Event (n : ℕ) where
  | producerAcquired (i : ℕ)
  | producerReleased (i : ℕ)
  | published (i : ℕ)
  | consumerAcquired (k : Fin n) (i : ℕ)
  | consumerReleased (k : Fin n) (i : ℕ)
  deriving DecidableEq

def start {n : ℕ} (shm : Spmc) : State n := ⟨shm, .idle, fun _ => .idle⟩

variable {n : ℕ}

def Spmc.setLock (shm : Spmc) (i : ℕ) (l : RwLock) : Spmc :=
  { shm with rwlocks := Function.update shm.rwlocks i l }

/-- One iteration of the loop of `producer_alloc`. It takes the lock for reading. -/
def producerAllocTry (s : State n) (i : ℕ) : State n × List (Event n) :=
  match tryrdlock (s.shm.rwlocks i) with
  | some l =>
    ({ s with
        shm := { s.shm.setLock i l with
          size := if s.shm.size ≤ i then i + 1 else s.shm.size
          writePos := (i + 1) % s.shm.capacity }
        producer := .writing i }, [.producerAcquired i])
  | none => ({ s with producer := .scanning ((i + 1) % s.shm.capacity) }, [])

/-- `producer_alloc_end` up to the unlock. -/
def producerAllocEnd (s : State n) (i : ℕ) : State n × List (Event n) :=
  ({ s with shm := s.shm.setLock i (unlock (s.shm.rwlocks i)), producer := .ending i },
    [.producerReleased i])

/-- The store of `read_pos` at the end of `producer_alloc_end`. -/
def producerPublish (s : State n) (i : ℕ) : State n × List (Event n) :=
  ({ s with shm := { s.shm with readPos := i }, producer := .idle }, [.published i])

def State.setConsumer (s : State n) (k : Fin n) (pc : ConsumerPc) : State n :=
  { s with consumer := Function.update s.consumer k pc }

/-- `consumer_alloc` tries the lock of the entry it loaded and starts over on an error. -/
def consumerAllocTry (s : State n) (k : Fin n) (i : ℕ) : State n × List (Event n) :=
  match tryrdlock (s.shm.rwlocks i) with
  | some l =>
    ({ s with
        shm := s.shm.setLock i l
        consumer := Function.update s.consumer k (.reading i) }, [.consumerAcquired k i])
  | none => (s.setConsumer k .allocating, [])

/-- `consumer_alloc_end` -/
def consumerAllocEnd (s : State n) (k : Fin n) (i : ℕ) : State n × List (Event n) :=
  ({ s with
      shm := s.shm.setLock i (unlock (s.shm.rwlocks i))
      consumer := Function.update s.consumer k .idle }, [.consumerReleased k i])

def step (s : State n) : Action n → Option (State n × List (Event n))
  | .producer =>
    match s.producer with
    | .idle => some ({ s with producer := .scanning s.shm.writePos }, [])
    | .scanning i => some (producerAllocTry s i)
    | .writing i => some (producerAllocEnd s i)
    | .ending i => some (producerPublish s i)
  | .consumer k =>
    match s.consumer k with
    | .idle => some (s.setConsumer k .allocating, [])
    | .allocating => some (s.setConsumer k (.gotPos s.shm.readPos), [])
    | .gotPos i => some (consumerAllocTry s k i)
    | .reading i => some (consumerAllocEnd s k i)

end CodeC.Spmc12
