import CodeC.Library.Run
import Mathlib.Data.Int.Notation
import Mathlib.Logic.Function.Basic
import Mathlib.Data.Fintype.Defs

/-!
# The thread pool of `util/threadpool.c`

`n` workers, any number of callers of `threadpool_add` and `threadpool_destroy`, and the thread that
creates the pool. All fields of the pool but the ones `threadpool_free` reads are accessed under the
lock, so that a critical section is one step. A worker calls the task it has taken after it has
unlocked, and the call runs outside the lock; `threadpool_free` frees the pool before
`threadpool_destroy` returns. `pthread_cond_signal` wakes one of the blocked workers when there is one,
and a blocked worker may wake up spuriously. The calls of the threads library succeed, apart from
`pthread_create`.
-/

namespace CodeC.ThreadPool

/-- `threadpool_task_t` -/
structure Task (φ ω : Type) where
  function : φ
  argument : ω

/-- `threadpool_shutdown_t` -/
inductive Shutdown where
  | immediate
  | graceful
  deriving DecidableEq

/-- The members of `threadpool_error_t` that are returned when the threads library works -/
inductive Error where
  | invalid
  | queueFull
  | shutdown
  deriving DecidableEq

/-- `threadpool_t`. The value `0` of the flag `shutdown` is `none`. -/
structure Pool (φ ω : Type) where
  queue : ℕ → Task φ ω
  threadCount : ℕ
  queueSize : ℕ
  head : ℕ
  tail : ℕ
  count : ℕ
  shutdown : Option Shutdown
  started : ℤ

variable {φ ω : Type} {n : ℕ}

/-- The critical section of `threadpool_add` -/
def threadpoolAdd (p : Pool φ ω) (function : φ) (argument : ω) : Except Error (Pool φ ω) :=
  let next := (p.tail + 1) % p.queueSize
  if p.count = p.queueSize then .error .queueFull
  else if p.shutdown.isSome then .error .shutdown
  else .ok { p with
    queue := Function.update p.queue p.tail ⟨function, argument⟩
    tail := next
    count := p.count + 1 }

/-- The bit `threadpool_graceful` of the flags of `threadpool_destroy` -/
def shutdownOf (flags : BitVec 32) : Shutdown :=
  if flags &&& 1#32 ≠ 0#32 then .graceful else .immediate

/-- The critical section of `threadpool_destroy` -/
def threadpoolDestroy (p : Pool φ ω) (flags : BitVec 32) : Except Error (Pool φ ω) :=
  if p.shutdown.isSome then .error .shutdown
  else .ok { p with shutdown := some (shutdownOf flags) }

/-- How a critical section of a worker ends -/
inductive Turn (φ ω : Type) where
  | wait
  | leave (p : Pool φ ω)
  | take (p : Pool φ ω) (task : Task φ ω)

/-- The critical section of `threadpool_thread`, from a lock or a return of `pthread_cond_wait` to the
next wait or unlock -/
def threadpoolThread (p : Pool φ ω) : Turn φ ω :=
  if p.count = 0 ∧ p.shutdown = none then .wait
  else if p.shutdown = some .immediate ∨ (p.shutdown = some .graceful ∧ p.count = 0) then
    .leave { p with started := p.started - 1 }
  else
    .take { p with head := (p.head + 1) % p.queueSize, count := p.count - 1 } (p.queue p.head)

/-- Control points of a worker. It is `unborn` before its `pthread_create`, `locking` at the top of its
loop, `waiting` in `pthread_cond_wait`, `woken` when it has left the wait but not locked again, `taken`
when it has unlocked and not yet called its task, and `running` in the call. -/
inductive WorkerPc (φ ω : Type) where
  | unborn
  | locking
  | waiting
  | woken
  | taken (task : Task φ ω)
  | running (task : Task φ ω)
  | exited

def WorkerPc.isWaiting : WorkerPc φ ω → Bool
  | .waiting => true
  | _ => false

def WorkerPc.isExited : WorkerPc φ ω → Bool
  | .exited => true
  | _ => false

/-- The worker's next step is to take the lock. -/
def WorkerPc.wantsLock : WorkerPc φ ω → Bool
  | .locking => true
  | .woken => true
  | _ => false

/-- `pthread_cond_broadcast` -/
def WorkerPc.wake : WorkerPc φ ω → WorkerPc φ ω
  | .waiting => .woken
  | pc => pc

/-- Control points of `threadpool_create` -/
inductive CreatePc where
  | starting
  | returned
  | failed
  deriving DecidableEq

/-- Control points of the call of `threadpool_destroy` that has set the flag: `joining i` before the
join of worker `i`, `freeing` when `threadpool_free` is at its lock, `leaving` when it has freed the
pool. -/
inductive DestroyPc where
  | idle
  | joining (i : ℕ)
  | freeing
  | leaving
  | returned
  deriving DecidableEq

/-- `locked` is a lock that is held and never released, `queueFreed` and `freed` say that the arrays
and the pool itself have been freed. -/
structure State (φ ω : Type) (n : ℕ) where
  pool : Pool φ ω
  worker : Fin n → WorkerPc φ ω
  create : CreatePc
  destroy : DestroyPc
  locked : Bool
  queueFreed : Bool
  freed : Bool

/-- `wakee` is the worker that the signal of `threadpool_add` wakes, if any. -/
inductive Action (φ ω : Type) (n : ℕ) where
  | spawn
  | spawnFails
  | add (function : Option φ) (argument : ω) (wakee : Option (Fin n))
  | destroy (flags : BitVec 32)
  | join
  | work (w : Fin n)
  | call (w : Fin n)
  | finish (w : Fin n)
  | spurious (w : Fin n)

/-- A worker takes a task from the queue, starts it by calling its function, and finishes it. `freed` is
`free(pool)`, and `fault` an access to freed memory, by a worker or by a caller. -/
inductive Event (φ ω : Type) (n : ℕ) where
  | added (task : Task φ ω)
  | refused (e : Error)
  | took (w : Fin n) (task : Task φ ω)
  | started (w : Fin n) (task : Task φ ω)
  | finished (w : Fin n) (task : Task φ ω)
  | exited (w : Fin n)
  | shuttingDown (k : Shutdown)
  | freed
  | destroyed (err : Option Error)
  | fault (w : Option (Fin n))

/-- `threadpool_create` up to its loop. The queue comes from `malloc` with any contents. -/
def threadpoolCreate (threadCount queueSize : ℤ) (queue : ℕ → Task φ ω) :
    Option (State φ ω threadCount.toNat) :=
  if threadCount ≤ 0 ∨ threadCount > 64 ∨ queueSize ≤ 0 ∨ queueSize > 65536 then none
  else some
    { pool := ⟨queue, 0, queueSize.toNat, 0, 0, 0, none, 0⟩
      worker := fun _ => .unborn
      create := .starting
      destroy := .idle
      locked := false
      queueFreed := false
      freed := false }

def State.setWorker (s : State φ ω n) (w : Fin n) (pc : WorkerPc φ ω) : State φ ω n :=
  { s with worker := Function.update s.worker w pc }

/-- One round of the loop of `threadpool_create` -/
def spawn (s : State φ ω n) : Option (State φ ω n × List (Event φ ω n)) :=
  if h : s.create = .starting ∧ s.pool.threadCount < n then
    some ({ s with
      pool := { s.pool with
        threadCount := s.pool.threadCount + 1
        started := s.pool.started + 1 }
      worker := Function.update s.worker ⟨s.pool.threadCount, h.2⟩ .locking
      create := if s.pool.threadCount + 1 = n then .returned else .starting }, [])
  else none

/-- `pthread_create` fails: the pool is destroyed and `NULL` returned. -/
def spawnFails (s : State φ ω n) : Option (State φ ω n × List (Event φ ω n)) :=
  if s.create = .starting ∧ s.pool.threadCount < n then some ({ s with create := .failed }, [])
  else none

/-- `pthread_cond_signal` -/
def signal (s : State φ ω n) : Option (Fin n) → Option (State φ ω n)
  | none => if ∃ u, (s.worker u).isWaiting then none else some s
  | some u => if (s.worker u).isWaiting then some (s.setWorker u .woken) else none

/-- `threadpool_add` -/
def add (s : State φ ω n) (function : Option φ) (argument : ω) (wakee : Option (Fin n)) :
    Option (State φ ω n × List (Event φ ω n)) :=
  if s.create = .returned then
    match function with
    | none => some (s, [.refused .invalid])
    | some f =>
      if s.freed then some (s, [.fault none])
      else if s.locked then none
      else match threadpoolAdd s.pool f argument with
        | .error e => some (s, [.refused e])
        | .ok p =>
          if s.queueFreed then some (s, [.fault none])
          else (signal { s with pool := p } wakee).map fun t => (t, [.added ⟨f, argument⟩])
  else none

/-- `threadpool_destroy` up to its joins. The caller that finds the flag set returns with the lock
held. A pool whose creation has failed is known to its creator only. -/
def destroy (s : State φ ω n) (flags : BitVec 32) : Option (State φ ω n × List (Event φ ω n)) :=
  if s.create = .returned ∨ (s.create = .failed ∧ flags = 0#32 ∧ s.destroy = .idle) then
    if s.freed then some (s, [.fault none])
    else if s.locked then none
    else match threadpoolDestroy s.pool flags with
      | .error e => some ({ s with locked := true }, [.destroyed (some e)])
      | .ok p =>
        some ({ s with pool := p, worker := fun w => (s.worker w).wake, destroy := .joining 0 },
          [.shuttingDown (shutdownOf flags)])
  else none

/-- The next step of `threadpool_destroy` after its critical section: a join, or a part of
`threadpool_free`, which frees the arrays before it takes the lock and the pool after, or the return. -/
def join (s : State φ ω n) : Option (State φ ω n × List (Event φ ω n)) :=
  match s.destroy with
  | .idle => none
  | .joining i =>
    if i < s.pool.threadCount then
      if ∀ w : Fin n, w.val = i → (s.worker w).isExited then
        some ({ s with destroy := .joining (i + 1) }, [])
      else none
    else if 0 < s.pool.started then some ({ s with destroy := .returned }, [.destroyed none])
    else some ({ s with queueFreed := true, destroy := .freeing }, [])
  | .freeing =>
    if s.locked then none
    else some ({ s with freed := true, destroy := .leaving }, [.freed])
  | .leaving => some ({ s with destroy := .returned }, [.destroyed none])
  | .returned => none

/-- The critical section of worker `w` -/
def work (s : State φ ω n) (w : Fin n) : Option (State φ ω n × List (Event φ ω n)) :=
  if (s.worker w).wantsLock then
    if s.freed then some (s, [.fault (some w)])
    else if s.locked then none
    else match threadpoolThread s.pool with
      | .wait => some (s.setWorker w .waiting, [])
      | .leave p => some ({ s with pool := p }.setWorker w .exited, [.exited w])
      | .take p task =>
        if s.queueFreed then some (s, [.fault (some w)])
        else some ({ s with pool := p }.setWorker w (.taken task), [.took w task])
  else none

/-- Worker `w` calls the task it has taken. -/
def call (s : State φ ω n) (w : Fin n) : Option (State φ ω n × List (Event φ ω n)) :=
  match s.worker w with
  | .taken task => some (s.setWorker w (.running task), [.started w task])
  | _ => none

/-- The task of worker `w` returns. -/
def finish (s : State φ ω n) (w : Fin n) : Option (State φ ω n × List (Event φ ω n)) :=
  match s.worker w with
  | .running task => some (s.setWorker w .locking, [.finished w task])
  | _ => none

def spurious (s : State φ ω n) (w : Fin n) : Option (State φ ω n × List (Event φ ω n)) :=
  if (s.worker w).isWaiting then some (s.setWorker w .woken, []) else none

def step (s : State φ ω n) : Action φ ω n → Option (State φ ω n × List (Event φ ω n))
  | .spawn => spawn s
  | .spawnFails => spawnFails s
  | .add function argument wakee => add s function argument wakee
  | .destroy flags => destroy s flags
  | .join => join s
  | .work w => work s w
  | .call w => call s w
  | .finish w => finish s w
  | .spurious w => spurious s w

end CodeC.ThreadPool
