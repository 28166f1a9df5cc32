import CodeC.Spmc10

/-!
# The shared-memory ring of `spmc8.c`

The same segment as in `spmc10.c`, with other atomic operations: `producer_alloc` reads a
counter before it tries to exchange it, `producer_alloc_end` releases the entry and moves
`read_pos` by compare-and-swap, and `consumer_alloc_end` decrements the counter in a loop of
compare-and-swap. Plain reads of shared fields are steps of their own.
-/

namespace CodeC.Spmc8
open Library
open Spmc10 (Spmc Action)

/-- `spmc_init` on the segment `seg`. It sets neither `write_pos` nor `read_pos`. -/
def spmcInit (entryNum bufSize : ℤ) (isProducer : Bool) (seg : Spmc) : Option Spmc :=
  if entryNum ≤ 0 ∨ entryNum > Spmc10.entryNumMax ∨ bufSize ≤ 0 then none
  else if isProducer then
    some { seg with
      size := 0
      capacity := entryNum.toNat
      bufSize := bufSize.toNat
      nconsumers := fun i => if i < entryNum.toNat then 0 else seg.nconsumers i }
  else some seg

/-- Control points of the producer: `scanning i` before the read of `nconsumers[i]`, `trying i`
before the exchange, `ending i` before the load of `read_pos`, `publishing i old` before the
exchange of `read_pos`. -/
inductive ProducerPc where
  | idle
  | scanning (i : ℕ)
  | trying (i : ℕ)
  | writing (i : ℕ)
  | ending (i : ℕ)
  | publishing (i old : ℕ)
  | exited
  deriving DecidableEq, Repr

/-- Control points of a consumer; `releasing i old` is before the exchange of
`consumer_alloc_end`. -/
inductive ConsumerPc where
  | idle
  | allocating
  | gotPos (i : ℕ)
  | gotCount (i : ℕ) (old : ℤ)
  | reading (i : ℕ)
  | releasing (i : ℕ) (old : ℤ)
  deriving DecidableEq, Repr

structure State (n : ℕ) where
  shm : Spmc
  producer : ProducerPc
  consumer : Fin n → ConsumerPc

inductive Event (n : ℕ) where
  | producerAcquired (i : ℕ)
  | published (i : ℕ)
  | consumerAcquired (k : Fin n) (i : ℕ)
  | consumerReleased (k : Fin n) (i : ℕ)
  deriving DecidableEq

def start {n : ℕ} (shm : Spmc) : State n := ⟨shm, .idle, fun _ => .idle⟩

variable {n : ℕ}

/-- `producer_alloc` reads `nconsumers[i]` and skips an entry in use. -/
def producerAllocLoad (s : State n) (i : ℕ) : State n × List (Event n) :=
  if s.shm.nconsumers i ≠ 0 then
    ({ s with producer := .scanning ((i + 1) % s.shm.capacity) }, [])
  else ({ s with producer := .trying i }, [])

/-- The compare-and-swap of `producer_alloc`. -/
def producerAllocCas (s : State n) (i : ℕ) : State n × List (Event n) :=
  if s.shm.nconsumers i = 0 then
    ({ s with
        shm := { s.shm with
          nconsumers := Function.update s.shm.nconsumers i (-1)
          size := if s.shm.size ≤ i then i + 1 else s.shm.size
          writePos := (i + 1) % s.shm.capacity }
        producer := .writing i }, [.producerAcquired i])
  else ({ s with producer := .scanning ((i + 1) % s.shm.capacity) }, [])

/-- The caller stores one byte of its message. -/
def producerWrite (s : State n) (i off : ℕ) (byte : UInt8) : State n × List (Event n) :=
  ({ s with shm := { s.shm with
      buf := Function.update s.shm.buf i (Function.update (s.shm.buf i) off byte) } }, [])

/-- `producer_alloc_end` releases the entry; a failure is the exit with `ERROR unexpected`. -/
def producerAllocEnd (s : State n) (i : ℕ) : State n × List (Event n) :=
  if s.shm.nconsumers i = -1 then
    ({ s with
        shm := { s.shm with nconsumers := Function.update s.shm.nconsumers i 0 }
        producer := .ending i }, [])
  else ({ s with producer := .exited }, [])

/-- The exchange of `read_pos`; after a failure `producer_alloc_end` loads it again. -/
def producerPublish (s : State n) (i old : ℕ) : State n × List (Event n) :=
  if s.shm.readPos = old then
    ({ s with shm := { s.shm with readPos := i }, producer := .idle }, [.published i])
  else ({ s with producer := .ending i }, [])

def State.setConsumer (s : State n) (k : Fin n) (pc : ConsumerPc) : State n :=
  { s with consumer := Function.update s.consumer k pc }

/-- `consumer_alloc` reads `nconsumers[i]` and starts over when the producer holds `i`. -/
def consumerAllocLoadCount (s : State n) (k : Fin n) (i : ℕ) : State n × List (Event n) :=
  if s.shm.nconsumers i < 0 then (s.setConsumer k .allocating, [])
  else (s.setConsumer k (.gotCount i (s.shm.nconsumers i)), [])

/-- The compare-and-swap of `consumer_alloc`. -/
def consumerAllocCas (s : State n) (k : Fin n) (i : ℕ) (old : ℤ) : State n × List (Event n) :=
  if s.shm.nconsumers i = old then
    ({ s with
        shm := { s.shm with
          nconsumers := Function.update s.shm.nconsumers i (wrap32 (old + 1)) }
        consumer := Function.update s.consumer k (.reading i) }, [.consumerAcquired k i])
  else (s.setConsumer k .allocating, [])

/-- The compare-and-swap of `consumer_alloc_end`. -/
def consumerAllocEndCas (s : State n) (k : Fin n) (i : ℕ) (old : ℤ) : State n × List (Event n) :=
  if s.shm.nconsumers i = old then
    ({ s with
        shm := { s.shm with
          nconsumers := Function.update s.shm.nconsumers i (wrap32 (old - 1)) }
        consumer := Function.update s.consumer k .idle }, [.consumerReleased k i])
  else (s.setConsumer k (.reading i), [])

def step (s : State n) : Action n → Option (State n × List (Event n))
  | .producer =>
    match s.producer with
    | .idle => some ({ s with producer := .scanning s.shm.writePos }, [])
    | .scanning i => some (producerAllocLoad s i)
    | .trying i => some (producerAllocCas s i)
    | .writing i => some (producerAllocEnd s i)
    | .ending i => some ({ s with producer := .publishing i s.shm.readPos }, [])
    | .publishing i old => some (producerPublish s i old)
    | .exited => none
  | .write off byte =>
    match s.producer with
    | .writing i => if off < s.shm.bufSize then some (producerWrite s i off byte) else none
    | _ => none
  | .consumer k =>
    match s.consumer k with
    | .idle => some (s.setConsumer k .allocating, [])
    | .allocating => some (s.setConsumer k (.gotPos s.shm.readPos), [])
    | .gotPos i => some (consumerAllocLoadCount s k i)
    | .gotCount i old => some (consumerAllocCas s k i old)
    | .reading i => some (s.setConsumer k (.releasing i (s.shm.nconsumers i)), [])
    | .releasing i old => some (consumerAllocEndCas s k i old)

end CodeC.Spmc8
