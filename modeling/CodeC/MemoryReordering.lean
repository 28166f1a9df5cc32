import CodeC.Library.LockWord
import CodeC.Library.Run
import CodeC.Library.StoreBuffer

/-!
# The reordering detector of `memory_reordering.cc`

Two threads store to one variable each and load the other's, round after round, and the main thread
counts the rounds in which both have loaded zero. A semaphore operation is a locked instruction: it
waits until the stores of its processor have reached the memory. The random delay before the store
has no effect but time, so the steps of the threads interleave arbitrarily. Each thread stays on one
processor. The two counters of `main` are signed 32-bit integers, and its loop never ends: they are
taken to wrap.
-/

namespace CodeC.MemoryReordering
open Library

/-- The global variables -/
inductive Loc where
  | X
  | Y
  | r1
  | r2
  deriving DecidableEq

/-- `ThreadFunc1` and `ThreadFunc2` -/
inductive Worker where
  | one
  | two
  deriving DecidableEq

inductive Thread where
  | main
  | worker (w : Worker)

/-- The macro `USE_CPU_FENCE` and the processor each thread runs on -/
structure Config where
  fence : Bool
  cpu : Thread → ℕ

/-- The macros as they are set: no fence, and with `USE_SINGLE_PROCESSOR` a call of
`pthread_setaffinity_np` for each of the two threads, whose result is not looked at. A call that
succeeds (`bound`) binds the thread to processor 0; otherwise it runs where it would have run. -/
def asBuilt (cpu : Thread → ℕ) (bound : Worker → Bool) : Config where
  fence := false
  cpu
    | .main => cpu .main
    | .worker w => if bound w then 0 else cpu (.worker w)

/-- Control points of a thread: at `sem_wait`, in the delay, before the fence, before the load, with
the loaded value in a register, and at `sem_post`. -/
inductive WorkerPc where
  | waiting
  | delaying
  | stored
  | fenced
  | loaded (v : ℕ)
  | posting
  deriving DecidableEq

/-- Control points of `main`: before each store, at each semaphore operation and before each of the
two loads of the comparison. -/
inductive MainPc where
  | clearX
  | clearY
  | post (w : Worker)
  | waitFirst
  | waitSecond
  | check (w : Worker)
  deriving DecidableEq

structure State where
  mem : Tso ℕ Loc ℕ
  beginSem : Worker → ℕ
  endSem : ℕ
  worker : Worker → WorkerPc
  main : MainPc
  i : ℤ
  detected : ℤ

def init : State :=
  ⟨⟨fun _ => 0, fun _ => []⟩, fun _ => 0, 0, fun _ => .waiting, .clearX, 1, 0⟩

/-- `flush c` is the oldest store of processor `c` reaching the memory. -/
inductive Action where
  | flush (c : ℕ)
  | worker (w : Worker)
  | main

/-- `loaded` is the load of a thread, `report` the line that `main` prints. -/
inductive Event where
  | loaded (w : Worker) (v : ℕ)
  | report (detected i : ℤ)
  deriving DecidableEq

def Worker.other : Worker → Worker
  | .one => .two
  | .two => .one

/-- The variable a thread stores to -/
def Worker.flag : Worker → Loc
  | .one => .X
  | .two => .Y

/-- The variable a thread leaves its result in -/
def Worker.result : Worker → Loc
  | .one => .r1
  | .two => .r2

def State.setWorker (s : State) (w : Worker) (pc : WorkerPc) : State :=
  { s with worker := Function.update s.worker w pc }

/-- The next step of the loop of a thread. Without `mfence` the barrier is one for the compiler
only. -/
def threadFunc (cfg : Config) (s : State) (w : Worker) : Option (State × List Event) :=
  let c := cfg.cpu (.worker w)
  match s.worker w with
  | .waiting =>
    if s.mem.Drained c ∧ 0 < s.beginSem w then
      some ({ s with beginSem := Function.update s.beginSem w (s.beginSem w - 1) }.setWorker w
        .delaying, [])
    else none
  | .delaying => some ({ s with mem := s.mem.store c w.flag 1 }.setWorker w .stored, [])
  | .stored =>
    if cfg.fence ∧ ¬s.mem.Drained c then none else some (s.setWorker w .fenced, [])
  | .fenced =>
    let v := s.mem.load c w.other.flag
    some (s.setWorker w (.loaded v), [.loaded w v])
  | .loaded v => some ({ s with mem := s.mem.store c w.result v }.setWorker w .posting, [])
  | .posting =>
    if s.mem.Drained c then some ({ s with endSem := s.endSem + 1 }.setWorker w .waiting, [])
    else none

def threadFunc1 (cfg : Config) (s : State) : Option (State × List Event) := threadFunc cfg s .one

def threadFunc2 (cfg : Config) (s : State) : Option (State × List Event) := threadFunc cfg s .two

/-- `sem_post(&begin_sem1)` and `sem_post(&begin_sem2)` -/
def postBegin (cfg : Config) (s : State) (w : Worker) (next : MainPc) : Option (State × List Event) :=
  if s.mem.Drained (cfg.cpu .main) then
    some ({ s with beginSem := Function.update s.beginSem w (s.beginSem w + 1), main := next }, [])
  else none

/-- `sem_wait(&end_sem)` -/
def waitEnd (cfg : Config) (s : State) (next : MainPc) : Option (State × List Event) :=
  if s.mem.Drained (cfg.cpu .main) ∧ 0 < s.endSem then
    some ({ s with endSem := s.endSem - 1, main := next }, [])
  else none

/-- The next step of the loop of `main` -/
def mainLoop (cfg : Config) (s : State) : Option (State × List Event) :=
  let c := cfg.cpu .main
  match s.main with
  | .clearX => some ({ s with mem := s.mem.store c .X 0, main := .clearY }, [])
  | .clearY => some ({ s with mem := s.mem.store c .Y 0, main := .post .one }, [])
  | .post .one => postBegin cfg s .one (.post .two)
  | .post .two => postBegin cfg s .two .waitFirst
  | .waitFirst => waitEnd cfg s .waitSecond
  | .waitSecond => waitEnd cfg s (.check .one)
  | .check .one =>
    if s.mem.load c .r1 = 0 then some ({ s with main := .check .two }, [])
    else some ({ s with main := .clearX, i := wrap32 (s.i + 1) }, [])
  | .check .two =>
    if s.mem.load c .r2 = 0 then
      some ({ s with main := .clearX, i := wrap32 (s.i + 1), detected := wrap32 (s.detected + 1) },
        [.report (wrap32 (s.detected + 1)) s.i])
    else some ({ s with main := .clearX, i := wrap32 (s.i + 1) }, [])

def step (cfg : Config) (s : State) : Action → Option (State × List Event)
  | .flush c => (s.mem.flush c).map fun m => ({ s with mem := m }, [])
  | .worker .one => threadFunc1 cfg s
  | .worker .two => threadFunc2 cfg s
  | .main => mainLoop cfg s

end CodeC.MemoryReordering
