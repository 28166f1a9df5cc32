import CodeC.ShmState

/-!
# Publishers and subscribers of one topic in `pubsub-shm-udp-3`

Every `MessagePublisher` and `MessageSubscriber` owns a `ShmBlock` on the shared-memory name of
its topic, in a process of its own. A publisher creates the segment, a subscriber opens it and
reads from it when a notice arrives. Each member function runs as one step. Notices travel as
datagrams that can be overtaken and lost, and they can arrive after their sender has gone.
-/

namespace CodeC.ShmPubSub
open Library

def kBlockNum : ℕ := 8

/-- The shared-memory objects of the system. A mapping refers to its segment directly, so it
survives the removal of the name. -/
structure Memory where
  names : String → Option ℕ
  segment : ℕ → ShmState.State
  created : ℕ

/-- `shm_open` with `O_CREAT`. -/
def Memory.shmOpenCreate (m : Memory) (name : String) : Memory × ℕ :=
  match m.names name with
  | some g => (m, g)
  | none =>
    ({ m with
        names := Function.update m.names name (some m.created)
        created := m.created + 1 }, m.created)

def Memory.shmUnlink (m : Memory) (name : String) : Memory :=
  { m with names := Function.update m.names name none }

def Memory.setSegment (m : Memory) (g : ℕ) (st : ShmState.State) : Memory :=
  { m with segment := Function.update m.segment g st }

/-- `LockForWrite` when nobody interferes. It takes the first free block from `write_pos_` on, and
it does not return when there is none. -/
def lockForWrite (st : ShmState.State) : Option (ShmState.State × ℕ) :=
  (((List.range st.blockNum).map fun j => (st.writePos + j) % st.blockNum).find?
    fun i => st.locks i = ShmState.kRWLockFree).map fun i =>
      ({ st with locks := Function.update st.locks i ShmState.kWriteExclusive }, i)

def releaseWriteLock (st : ShmState.State) (i : ℕ) : ShmState.State :=
  { st with locks := Function.update st.locks i ShmState.kRWLockFree, readPos := i }

/-- `LockForRead` when nobody interferes; `none` is the return value -1. -/
def lockForRead (st : ShmState.State) : Option (ShmState.State × ℕ) :=
  if st.readPos < 0 then none
  else
    let i := st.readPos.toNat
    some ({ st with locks := Function.update st.locks i (wrap32 (st.locks i + 1)) }, i)

def releaseReadLock (st : ShmState.State) (i : ℕ) : ShmState.State :=
  { st with locks := Function.update st.locks i (wrap32 (st.locks i - 1)) }

/-- `managedShm` is the segment that `managed_shm_`, `state_` and `buffer_` point into. -/
structure ShmBlock where
  shmName : String
  blockNum : ℕ
  managedShm : Option ℕ

namespace ShmBlock

/-- `Create` opens or creates the segment and constructs a new `State` in it. -/
def create (m : Memory) (b : ShmBlock) : Memory × ShmBlock :=
  match b.managedShm with
  | some _ => (m, b)
  | none =>
    let (m, g) := m.shmOpenCreate b.shmName
    (m.setSegment g (ShmState.State.new b.blockNum), { b with managedShm := some g })

/-- `Open` keeps a mapping that is there, and fails when the name is missing. -/
def openOnly (m : Memory) (b : ShmBlock) : ShmBlock :=
  match b.managedShm with
  | some _ => b
  | none => { b with managedShm := m.names b.shmName }

def stop (b : ShmBlock) : ShmBlock := { b with managedShm := none }

/-- `~ShmBlock` removes the name when the block is mapped, whoever created the segment. -/
def destroy (m : Memory) (b : ShmBlock) : Memory :=
  match b.managedShm with
  | some _ => m.shmUnlink b.shmName
  | none => m

def acquireBlockToWrite (m : Memory) (b : ShmBlock) : Option (Memory × ShmBlock × ℕ) :=
  let (m, b) := b.create m
  match b.managedShm with
  | none => none
  | some g => (lockForWrite (m.segment g)).map fun (st, i) => (m.setSegment g st, b, i)

def releaseWrittenBlock (m : Memory) (b : ShmBlock) (i : ℕ) : Memory :=
  match b.managedShm with
  | none => m
  | some g => m.setSegment g (releaseWriteLock (m.segment g) i)

/-- What `AcquireBlockToRead` ends with: `NULL`, block `i` of segment `g`, or the failure of
`assert(i >= 0)`. -/
inductive Acquired where
  | null
  | block (g i : ℕ)
  | assertFailed
  deriving DecidableEq, Repr

def acquireBlockToRead (m : Memory) (b : ShmBlock) : Memory × ShmBlock × Acquired :=
  let b := b.openOnly m
  match b.managedShm with
  | none => (m, b, .null)
  | some g =>
    match lockForRead (m.segment g) with
    | none => (m, b, .assertFailed)
    | some (st, i) => (m.setSegment g st, b, .block g i)

end ShmBlock

open ShmBlock (Acquired)

/-- The byte of a datagram. -/
inductive Notify where
  | kNotifyRead
  | kNotifyOpen
  deriving DecidableEq, Repr

/-- A datagram on its way, with the number of the publisher that sent it. -/
structure Notice (n : ℕ) where
  sender : ℕ
  target : Fin n
  kind : Notify
  deriving DecidableEq

/-- `acquired` are the blocks that `Acquire` has handed to the caller. -/
structure Publisher where
  serial : ℕ
  shm : ShmBlock
  acquired : List ℕ

inductive Subscriber where
  | unborn
  | alive (shm : ShmBlock)
  | gone

structure State (n : ℕ) where
  memory : Memory
  publisher : Option Publisher
  publishers : ℕ
  subscriber : Fin n → Subscriber
  inFlight : List (Notice n)

inductive Action (n : ℕ) where
  | newPublisher
  | acquire
  | publish (i : ℕ) (subs : List (Fin n))
  | destroyPublisher
  | newSubscriber (k : Fin n)
  | deliver (d : Notice n)
  | destroySubscriber (k : Fin n)
  deriving DecidableEq

inductive Event (n : ℕ) where
  | acquired (k : Fin n) (result : Acquired)
  deriving DecidableEq

variable {n : ℕ}

-- A new shared-memory object is filled with zero bytes.
def start : State n :=
  ⟨⟨fun _ => none, fun _ => ⟨0, 0, 0, fun _ => 0⟩, 0⟩, none, 0, fun _ => .unborn, []⟩

def newPublisher (topic : String) (s : State n) : State n :=
  let (memory, shm) := ShmBlock.create s.memory ⟨topic, kBlockNum, none⟩
  { s with
    memory := memory
    publisher := some ⟨s.publishers, shm, []⟩
    publishers := s.publishers + 1 }

def acquire (s : State n) (pub : Publisher) : Option (State n) :=
  (pub.shm.acquireBlockToWrite s.memory).map fun (memory, shm, i) =>
    { s with
      memory := memory
      publisher := some { pub with shm := shm, acquired := i :: pub.acquired } }

/-- `Publish` releases the block and notifies every address in `subs_`. -/
def publish (s : State n) (pub : Publisher) (i : ℕ) (subs : List (Fin n)) : State n :=
  { s with
    memory := pub.shm.releaseWrittenBlock s.memory i
    publisher := some { pub with acquired := pub.acquired.erase i }
    inFlight := s.inFlight ++ subs.map fun k => ⟨pub.serial, k, .kNotifyRead⟩ }

/-- `message_read_cb`. The callback runs between the lock and the release of the block. A failed
assertion ends the process of the subscriber, without destructors. -/
def messageReadCb (m : Memory) (k : Fin n) (shm : ShmBlock) :
    Notify → Memory × Subscriber × List (Event n)
  | .kNotifyRead =>
    match shm.acquireBlockToRead m with
    | (m, shm, .null) => (m, .alive shm, [.acquired k .null])
    | (m, shm, .block g i) =>
      (m.setSegment g (releaseReadLock (m.segment g) i), .alive shm, [.acquired k (.block g i)])
    | (m, _, .assertFailed) => (m, .gone, [.acquired k .assertFailed])
  | .kNotifyOpen => (m, .alive (shm.stop.openOnly m), [])

def deliver (s : State n) (d : Notice n) (shm : ShmBlock) : State n × List (Event n) :=
  let (memory, sub, es) := messageReadCb s.memory d.target shm d.kind
  ({ s with
      memory := memory
      subscriber := Function.update s.subscriber d.target sub
      inFlight := s.inFlight.erase d }, es)

def step (topic : String) (s : State n) : Action n → Option (State n × List (Event n))
  | .newPublisher =>
    match s.publisher with
    | none => some (newPublisher topic s, [])
    | some _ => none
  | .acquire =>
    match s.publisher with
    | none => none
    | some pub => (acquire s pub).map fun s' => (s', [])
  | .publish i subs =>
    match s.publisher with
    | none => none
    | some pub => if i ∈ pub.acquired then some (publish s pub i subs, []) else none
  | .destroyPublisher =>
    match s.publisher with
    | none => none
    | some pub => some ({ s with memory := pub.shm.destroy s.memory, publisher := none }, [])
  | .newSubscriber k =>
    match s.subscriber k with
    | .unborn =>
      let shm := ShmBlock.openOnly s.memory ⟨topic, kBlockNum, none⟩
      some ({ s with subscriber := Function.update s.subscriber k (.alive shm) }, [])
    | _ => none
  | .deliver d =>
    match s.subscriber d.target with
    | .alive shm => if d ∈ s.inFlight then some (deliver s d shm) else none
    | _ => none
  | .destroySubscriber k =>
    match s.subscriber k with
    | .alive shm =>
      some ({ s with
        memory := shm.destroy s.memory
        subscriber := Function.update s.subscriber k .gone }, [])
    | _ => none

end CodeC.ShmPubSub
