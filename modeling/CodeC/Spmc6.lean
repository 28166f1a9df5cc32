import CodeC.Library.Run
import CodeC.Library.LockWord

/-!
# The shared-memory ring of `spmc6.c`

In this version the consumers move `read_pos` themselves, and they search the entries below
`size` from there. `size` grows with the first round of the producer. Every access to a field
that another party writes is a step of its own; `size` and `write_pos` are written by the
producer only. An entry is addressed by its index. `spmc_init` does not check `buf_size`, and
`producer_alloc_end` and `consumer_alloc_end` divide by it.
-/

namespace CodeC.Spmc6
open Library

/-- `ENTRY_NUM_MAX` -/
def entryNumMax : ℤ := 64

/-- The fields of `spmc_t` that the modelled functions read or write. -/
structure Spmc where
  size : ℕ
  capacity : ℕ
  bufSize : ℤ
  writePos : ℕ
  readPos : ℕ
  nconsumers : ℕ → ℤ

/-- A segment that `shmget` has just created -/
def zeroFilled : Spmc := ⟨0, 0, 0, 0, 0, fun _ => 0⟩

/-- `spmc_init` on the segment `seg`. It sets neither `write_pos` nor `read_pos`. -/
def spmcInit (entryNum bufSize : ℤ) (isProducer : Bool) (seg : Spmc) : Option Spmc :=
  if entryNum > entryNumMax then none
  else if isProducer then
    some { seg with
      size := 0
      capacity := entryNum.toNat
      bufSize := bufSize
      nconsumers := fun i => if i < entryNum.toNat then 0 else seg.nconsumers i }
  else some seg

/-- Control points of the producer: `scanning i` before the read of `nconsumers[i]`, `trying i`
before the exchange, `growing i` before `size` is stored. `exited` is the exit in
`producer_alloc_end` and its division by zero. -/
inductive ProducerPc where
  | idle
  | scanning (i : ℕ)
  | trying (i : ℕ)
  | growing (i : ℕ)
  | writing (i : ℕ)
  | exited
  deriving DecidableEq, Repr

/-- Control points of a consumer. It is at `next i` before the read of `size` for the next index
of the search, at `moving i` before the read of `read_pos` in the inner loop, at `gotRead i old`
before the read of `size` there, and at `exchanging i old new` before the exchange of `read_pos`.
`crashed` is a division by zero. -/
inductive ConsumerPc where
  | idle
  | allocating
  | gotPos (i : ℕ)
  | next (i : ℕ)
  | gotCount (i : ℕ) (old : ℤ)
  | moving (i : ℕ)
  | gotRead (i old : ℕ)
  | exchanging (i old new : ℕ)
  | reading (i : ℕ)
  | releasing (i : ℕ) (old : ℤ)
  | crashed
  deriving DecidableEq, Repr

structure State (n : ℕ) where
  shm : Spmc
  producer : ProducerPc
  consumer : Fin n → ConsumerPc

/-- The next step of a party in program order. -/
inductive Action (n : ℕ) where
  | producer
  | consumer (k : Fin n)
  deriving DecidableEq

inductive Event (n : ℕ) where
  | allocStarted
  | allocReturned (i : ℕ)
  | released (i : ℕ)
  | consumerReturned (k : Fin n) (i : ℕ)
  deriving DecidableEq

def start {n : ℕ} (shm : Spmc) : State n := ⟨shm, .idle, fun _ => .idle⟩

variable {n : ℕ}

/-- `producer_alloc` reads `nconsumers[i]` and skips an entry in use. -/
def producerAllocLoad (s : State n) (i : ℕ) : State n :=
  if s.shm.nconsumers i ≠ 0 then { s with producer := .scanning ((i + 1) % s.shm.capacity) }
  else { s with producer := .trying i }

/-- The compare-and-swap of `producer_alloc`. -/
def producerAllocCas (s : State n) (i : ℕ) : State n :=
  if s.shm.nconsumers i = 0 then
    { s with
      shm := { s.shm with nconsumers := Function.update s.shm.nconsumers i (-1) }
      producer := .growing i }
  else { s with producer := .scanning ((i + 1) % s.shm.capacity) }

/-- `producer_alloc` from the test of `size` on. -/
def producerAllocGrow (s : State n) (i : ℕ) : State n :=
  { s with
    shm := { s.shm with
      size := if s.shm.size ≤ i then i + 1 else s.shm.size
      writePos := (i + 1) % s.shm.capacity }
    producer := .writing i }

def producerAllocEnd (s : State n) (i : ℕ) : State n × List (Event n) :=
  if s.shm.bufSize ≠ 0 ∧ s.shm.nconsumers i = -1 then
    ({ s with
        shm := { s.shm with nconsumers := Function.update s.shm.nconsumers i 0 }
        producer := .idle }, [.released i])
  else ({ s with producer := .exited }, [])

def State.setConsumer (s : State n) (k : Fin n) (pc : ConsumerPc) : State n :=
  { s with consumer := Function.update s.consumer k pc }

/-- `consumer_alloc` reads `nconsumers[i]` and skips an entry of the producer. -/
def consumerAllocLoadCount (shm : Spmc) (i : ℕ) : ConsumerPc :=
  if shm.nconsumers i < 0 then .next i else .gotCount i (shm.nconsumers i)

/-- `i = (i+1) % spmc->size` -/
def consumerAllocNext (shm : Spmc) (i : ℕ) : ConsumerPc :=
  if shm.size = 0 then .crashed else .gotPos ((i + 1) % shm.size)

/-- The compare-and-swap of `nconsumers[i]` in `consumer_alloc`. -/
def consumerAllocCas (s : State n) (k : Fin n) (i : ℕ) (old : ℤ) : State n :=
  if s.shm.nconsumers i = old then
    { s with
      shm := { s.shm with
        nconsumers := Function.update s.shm.nconsumers i (wrap32 (old + 1)) }
      consumer := Function.update s.consumer k (.moving i) }
  else s.setConsumer k (.next i)

/-- `(old+1)%spmc->size` -/
def consumerAllocMove (shm : Spmc) (i old : ℕ) : ConsumerPc :=
  if shm.size = 0 then .crashed else .exchanging i old ((old + 1) % shm.size)

/-- The compare-and-swap of `read_pos` in `consumer_alloc`. -/
def consumerAllocExchange (s : State n) (k : Fin n) (i old new : ℕ) :
    State n × List (Event n) :=
  if s.shm.readPos = old then
    ({ s with
        shm := { s.shm with readPos := new }
        consumer := Function.update s.consumer k (.reading i) }, [.consumerReturned k i])
  else (s.setConsumer k (.moving i), [])

/-- `consumer_alloc_end` up to the read of `nconsumers[i]`. -/
def consumerAllocEndLoad (shm : Spmc) (i : ℕ) : ConsumerPc :=
  if shm.bufSize = 0 then .crashed else .releasing i (shm.nconsumers i)

/-- The compare-and-swap of `consumer_alloc_end`. -/
def consumerAllocEndCas (s : State n) (k : Fin n) (i : ℕ) (old : ℤ) : State n :=
  if s.shm.nconsumers i = old then
    { s with
      shm := { s.shm with
        nconsumers := Function.update s.shm.nconsumers i (wrap32 (old - 1)) }
      consumer := Function.update s.consumer k .idle }
  else s.setConsumer k (.reading i)

def step (s : State n) : Action n → Option (State n × List (Event n))
  | .producer =>
    match s.producer with
    | .idle => some ({ s with producer := .scanning s.shm.writePos }, [.allocStarted])
    | .scanning i => some (producerAllocLoad s i, [])
    | .trying i => some (producerAllocCas s i, [])
    | .growing i => some (producerAllocGrow s i, [.allocReturned i])
    | .writing i => some (producerAllocEnd s i)
    | .exited => none
  | .consumer k =>
    match s.consumer k with
    | .idle => some (s.setConsumer k .allocating, [])
    | .allocating => some (s.setConsumer k (.gotPos s.shm.readPos), [])
    | .gotPos i => some (s.setConsumer k (consumerAllocLoadCount s.shm i), [])
    | .next i => some (s.setConsumer k (consumerAllocNext s.shm i), [])
    | .gotCount i old => some (consumerAllocCas s k i old, [])
    | .moving i => some (s.setConsumer k (.gotRead i s.shm.readPos), [])
    | .gotRead i old => some (s.setConsumer k (consumerAllocMove s.shm i old), [])
    | .exchanging i old new => some (consumerAllocExchange s k i old new)
    | .reading i => some (s.setConsumer k (consumerAllocEndLoad s.shm i), [])
    | .releasing i old => some (consumerAllocEndCas s k i old, [])
    | .crashed => none

end CodeC.Spmc6
