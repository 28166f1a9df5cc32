import CodeC.Library.Run
import Mathlib.Data.Int.Notation

/-!
# The loop counter of `util/perf_stats.hpp`

Any number of threads call `Incr`. The statistics thread sleeps and calls `Print` in turn, and
`Stop` cancels it, calls `Print` itself and joins it. The load and the `fetch_add(-loops)` of
`Print` are separate steps, and the steps of all threads interleave arbitrarily. A cancelled thread
ends at its sleep.
-/

namespace CodeC.PerfStats

/-- The two callers of `Print` -/
inductive Printer where
  | thread
  | stop
  deriving DecidableEq

/-- Control points of `Print`, one before each access to shared data: the load, the `fetch_add`, the
line written with `start_`, and the store to `start_`. -/
inductive PrintPc where
  | entered
  | loaded (loops : UInt64)
  | taken (loops : UInt64)
  | written (stop : ℤ)
  deriving DecidableEq

/-- Control points of the statistics thread -/
inductive ThreadPc where
  | sleeping
  | printing (pc : PrintPc)
  | exited
  deriving DecidableEq

/-- Control points of `Stop`. It is `idle` when not called, `cancelling` before `pthread_cancel`
and `joining` after its `Print`. -/
inductive StopPc where
  | idle
  | cancelling
  | printing (pc : PrintPc)
  | joining
  deriving DecidableEq

/-- `joinable` is `thread_.joinable()`, `cancelled` a cancellation request to the thread. Times are
in nanoseconds. -/
structure State where
  name : String
  start : ℤ
  loops : UInt64
  joinable : Bool
  cancelled : Bool
  thread : ThreadPc
  stop : StopPc
  crashed : Bool

/-- The line that `Print` writes -/
structure Report where
  name : String
  ns : ℤ
  loops : UInt64
  average : UInt64

/-- `print p now` is the next step of the `Print` of `p`, with the time on the clock; `wake` ends
the sleep of the thread, `stop` is the next step of `Stop` outside `Print`. -/
inductive Action where
  | incr (loops : UInt64)
  | wake
  | print (p : Printer) (now : ℤ)
  | stop

/-- `stopping` is a call of `Stop` that finds the thread joinable, `stopped` its return. -/
inductive Event where
  | incr (loops : UInt64)
  | load (p : Printer) (loops : UInt64)
  | take (p : Printer) (loops : UInt64)
  | report (p : Printer) (r : Report)
  | stopping
  | stopped

/-- The constructor -/
def perfStats (name : String) (now : ℤ) : State :=
  ⟨name, now, 0, true, false, .sleeping, .idle, false⟩

/-- Where `p` is in `Print` -/
def State.pc (s : State) : Printer → Option PrintPc
  | .thread => match s.thread with
    | .printing pc => some pc
    | _ => none
  | .stop => match s.stop with
    | .printing pc => some pc
    | _ => none

def State.setPc (s : State) (pc : PrintPc) : Printer → State
  | .thread => { s with thread := .printing pc }
  | .stop => { s with stop := .printing pc }

/-- `Print` returns to its caller. -/
def State.endPrint (s : State) : Printer → State
  | .thread => { s with thread := .sleeping }
  | .stop => { s with stop := .joining }

/-- `loops_.fetch_add(loops)` -/
def incr (s : State) (loops : UInt64) : State × List Event :=
  ({ s with loops := s.loops + loops }, [.incr loops])

/-- The sleep of the statistics thread ends: it calls `Print`, or ends itself when cancelled. -/
def wake (s : State) : Option (State × List Event) :=
  if s.thread = .sleeping then
    if s.cancelled then some ({ s with thread := .exited }, [])
    else some ({ s with thread := .printing .entered }, [])
  else none

/-- The next step of `Print`. The average is a division of unsigned integers; with `trap` a division
by zero ends the process, without it the quotient is zero. -/
def print (trap : Bool) (s : State) (p : Printer) (now : ℤ) : PrintPc → State × List Event
  | .entered => (s.setPc (.loaded s.loops) p, [.load p s.loops])
  | .loaded loops => ({ s with loops := s.loops + -loops }.setPc (.taken loops) p, [.take p loops])
  | .taken loops =>
    if trap ∧ loops = 0 then ({ s with crashed := true }, [])
    else
      let ns := now - s.start
      (s.setPc (.written now) p, [.report p ⟨s.name, ns, loops, UInt64.ofInt ns / loops⟩])
  | .written stop => ({ s with start := stop }.endPrint p, [])

/-- The next step of `Stop` outside `Print`. The destructor calls it once more, which returns at
once when the thread is joined. -/
def stop (s : State) : Option (State × List Event) :=
  match s.stop with
  | .idle => if s.joinable then some ({ s with stop := .cancelling }, [.stopping]) else some (s, [])
  | .cancelling => some ({ s with cancelled := true, stop := .printing .entered }, [])
  | .printing _ => none
  | .joining =>
    if s.thread = .exited then some ({ s with joinable := false, stop := .idle }, [.stopped])
    else none

def step (trap : Bool) (s : State) (a : Action) : Option (State × List Event) :=
  if s.crashed then none
  else match a with
    | .incr loops => some (incr s loops)
    | .wake => wake s
    | .print p now => (s.pc p).map (print trap s p now)
    | .stop => stop s

end CodeC.PerfStats
