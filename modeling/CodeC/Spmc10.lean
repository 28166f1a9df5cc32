import CodeC.Library.Run
import CodeC.Library.Count
import CodeC.Library.LockWord

/-!
# The shared-memory ring of `spmc10.c`

One producer and `n` consumers share a segment `spmc_t`. Every atomic builtin is one step,
steps of different parties interleave arbitrarily, and plain accesses to fields that only
the producer touches belong to the atomic step next to them. An entry is addressed by its
index: `buf i` is the memory at `spmc->buf + i * spmc->buf_size`. `producer_alloc_end` and
`consumer_alloc_end` are given the index itself, not the address that they compute it from
(`entryIndex`); the two agree as long as the offsets are exact.
-/

namespace CodeC.Spmc10
open Library

/-- `ENTRY_NUM_MAX` -/
def entryNumMax : ℤ := 64

/-- The fields of `spmc_t` that the modelled functions read or write. -/
structure Spmc where
  size : ℕ
  capacity : ℕ
  bufSize : ℕ
  writePos : ℕ
  readPos : ℕ
  nconsumers : ℕ → ℤ
  buf : ℕ → ℕ → UInt8

/-- `spmc_init` on the segment `seg` that `shmget` and `shmat` return; `none` is the exit
at the head. A consumer attaches without writing. -/
def spmcInit (entryNum bufSize : ℤ) (isProducer : Bool) (seg : Spmc) : Option Spmc :=
  if entryNum ≤ 0 ∨ entryNum > entryNumMax ∨ bufSize ≤ 0 then none
  else if isProducer then
    some { seg with
      size := 0
      capacity := entryNum.toNat
      bufSize := bufSize.toNat
      writePos := 0
      readPos := 0
      nconsumers := fun i => if i < entryNum.toNat then 0 else seg.nconsumers i }
  else some seg

/-- `sizeof(spmc_t)`: six fields of type `int` and `nconsumers` -/
def headerSize : ℤ := 4 * (6 + entryNumMax)

/-- The size `spmc_init` asks `shmget` for, `sizeof(spmc_t) + entry_num * buf_size`. The product is
an `int` and is converted to `size_t` for the sum. -/
def segmentSize (entryNum bufSize : ℤ) : ℤ :=
  (headerSize + wrap32 (entryNum * bufSize)) % 18446744073709551616

/-- `i * spmc->buf_size`, what `producer_alloc` and `consumer_alloc` add to `spmc->buf` -/
def entryOffset (spmc : Spmc) (i : ℕ) : ℤ := wrap32 (i * spmc.bufSize)

/-- `(buf - spmc->buf) / spmc->buf_size` in `producer_alloc_end` and `consumer_alloc_end`, stored in
an `int` -/
def entryIndex (spmc : Spmc) (offset : ℤ) : ℤ := wrap32 (offset.tdiv spmc.bufSize)

/-- Control points of the producer. It is `scanning i` before the compare-exchange on
`nconsumers[i]`, `writing i` from its success to the store of 0, and `ending i` before the
store of `read_pos`. -/
inductive ProducerPc where
  | idle
  | scanning (i : ℕ)
  | writing (i : ℕ)
  | ending (i : ℕ)
  | exited
  deriving DecidableEq, Repr

/-- Control points of a consumer, one before each atomic access of `consumer_alloc` and
`consumer_alloc_end`. -/
inductive ConsumerPc where
  | idle
  | allocating
  | gotPos (i : ℕ)
  | gotCount (i : ℕ) (old : ℤ)
  | reading (i : ℕ)
  | exited
  deriving DecidableEq, Repr

structure State (n : ℕ) where
  shm : Spmc
  producer : ProducerPc
  consumer : Fin n → ConsumerPc

/-- `producer` and `consumer k` let the party take its next step in program order;
`write` is a byte the producer stores between `producer_alloc` and `producer_alloc_end`. -/
inductive Action (n : ℕ) where
  | producer
  | write (off : ℕ) (byte : UInt8)
  | consumer (k : Fin n)
  deriving DecidableEq

inductive Event (n : ℕ) where
  | allocStarted
  | casFailed (i : ℕ)
  | producerAcquired (i : ℕ)
  | completed (i : ℕ) (content : ℕ → UInt8)
  | published (i : ℕ)
  | readPosLoaded (k : Fin n) (i : ℕ)
  | consumerAcquired (k : Fin n) (i : ℕ)
  | consumerReleased (k : Fin n) (i : ℕ)

def start {n : ℕ} (shm : Spmc) : State n := ⟨shm, .idle, fun _ => .idle⟩

variable {n : ℕ}

/-- Entering the loop of `producer_alloc`. -/
def producerAlloc (s : State n) : State n × List (Event n) :=
  ({ s with producer := .scanning s.shm.writePos }, [.allocStarted])

/-- One iteration of the loop of `producer_alloc`. -/
def producerAllocCas (s : State n) (i : ℕ) : State n × List (Event n) :=
  if s.shm.nconsumers i = 0 then
    ({ s with
        shm := { s.shm with
          nconsumers := Function.update s.shm.nconsumers i (-1)
          size := if s.shm.size ≤ i then i + 1 else s.shm.size
          writePos := (i + 1) % s.shm.capacity }
        producer := .writing i }, [.producerAcquired i])
  else
    ({ s with producer := .scanning ((i + 1) % s.shm.capacity) }, [.casFailed i])

/-- The caller stores one byte of its message. -/
def producerWrite (s : State n) (i off : ℕ) (byte : UInt8) : State n × List (Event n) :=
  ({ s with shm := { s.shm with
      buf := Function.update s.shm.buf i (Function.update (s.shm.buf i) off byte) } }, [])

/-- `producer_alloc_end` up to the release of the write lock, an exchange with a check of
the old value under `DEBUG` and a plain store otherwise. -/
def producerAllocEnd (debug : Bool) (s : State n) (i : ℕ) : State n × List (Event n) :=
  ({ s with
      shm := { s.shm with nconsumers := Function.update s.shm.nconsumers i 0 }
      producer := if debug ∧ s.shm.nconsumers i ≠ -1 then .exited else .ending i },
    [.completed i (s.shm.buf i)])

/-- The store of `read_pos` at the end of `producer_alloc_end`. -/
def producerPublish (s : State n) (i : ℕ) : State n × List (Event n) :=
  ({ s with shm := { s.shm with readPos := i }, producer := .idle }, [.published i])

def State.setConsumer (s : State n) (k : Fin n) (pc : ConsumerPc) : State n :=
  { s with consumer := Function.update s.consumer k pc }

/-- `consumer_alloc` loads `read_pos`. -/
def consumerAllocLoadPos (s : State n) (k : Fin n) : State n × List (Event n) :=
  (s.setConsumer k (.gotPos s.shm.readPos), [.readPosLoaded k s.shm.readPos])

/-- `consumer_alloc` loads `nconsumers[i]` and starts over when the producer holds `i`. -/
def consumerAllocLoadCount (s : State n) (k : Fin n) (i : ℕ) : State n × List (Event n) :=
  if s.shm.nconsumers i < 0 then (s.setConsumer k .allocating, [])
  else (s.setConsumer k (.gotCount i (s.shm.nconsumers i)), [])

/-- The compare-exchange of `consumer_alloc`. -/
def consumerAllocCas (s : State n) (k : Fin n) (i : ℕ) (old : ℤ) : State n × List (Event n) :=
  if s.shm.nconsumers i = old then
    ({ s with
        shm := { s.shm with
          nconsumers := Function.update s.shm.nconsumers i (wrap32 (old + 1)) }
        consumer := Function.update s.consumer k (.reading i) }, [.consumerAcquired k i])
  else (s.setConsumer k .allocating, [])

/-- `consumer_alloc_end`: an atomic decrement and a check of the new value. -/
def consumerAllocEnd (s : State n) (k : Fin n) (i : ℕ) : State n × List (Event n) :=
  let new := wrap32 (s.shm.nconsumers i - 1)
  ({ s with
      shm := { s.shm with nconsumers := Function.update s.shm.nconsumers i new }
      consumer := Function.update s.consumer k (if new < 0 then .exited else .idle) },
    [.consumerReleased k i])

def step (debug : Bool) (s : State n) : Action n → Option (State n × List (Event n))
  | .producer =>
    match s.producer with
    | .idle => some (producerAlloc s)
    | .scanning i => some (producerAllocCas s i)
    | .writing i => some (producerAllocEnd debug s i)
    | .ending i => some (producerPublish s i)
    | .exited => none
  | .write off byte =>
    match s.producer with
    | .writing i => if off < s.shm.bufSize then some (producerWrite s i off byte) else none
    | _ => none
  | .consumer k =>
    match s.consumer k with
    | .idle => some (s.setConsumer k .allocating, [])
    | .allocating => some (consumerAllocLoadPos s k)
    | .gotPos i => some (consumerAllocLoadCount s k i)
    | .gotCount i old => some (consumerAllocCas s k i old)
    | .reading i => some (consumerAllocEnd s k i)
    | .exited => none

end CodeC.Spmc10
