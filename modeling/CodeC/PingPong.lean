import CodeC.Library.Run
import Mathlib.Logic.Function.Basic

/-!
# The ping-pong benchmarks

Two threads hand a number to and fro, `attempts` times. `pingpong_atomic.cc` does it with two atomic
variables and spins; `pingpong.cc` has a mutex and a condition variable for each direction, and
`pingpong2.cc` has these too but spins on the mutex and never waits. The steps of the two threads
interleave arbitrarily. `attempts` is a `uint32_t`, and the counter `i` of the rounds an `int` that is
converted to `uint32_t` wherever it is compared or stored. They are natural numbers here, which is exact
for `attempts` up to `INT_MAX`.
-/

namespace CodeC.PingPong

inductive Role where
  | ping
  | pong
  deriving DecidableEq

/-- A thread stores the number for the other one, or finds the number it waits for. -/
inductive Event where
  | sent (r : Role) (i : ℕ)
  | received (r : Role) (i : ℕ)
  deriving DecidableEq

def Role.other : Role → Role
  | .ping => .pong
  | .pong => .ping

namespace Atomic

/-- Control points of a thread in round `i`: before its store, before its load -/
inductive Pc where
  | storing (i : ℕ)
  | loading (i : ℕ)
  | returned
  deriving DecidableEq

/-- `value .pong` is `vPong`, which `ping` stores to, `value .ping` is `vPing`. -/
structure State where
  value : Role → ℕ
  pc : Role → Pc

/-- The loop condition -/
def enter (attempts : ℕ) (i : ℕ) (pc : Pc) : Pc := if i < attempts then pc else .returned

def init (attempts : ℕ) : State where
  value _ := attempts
  pc
    | .ping => enter attempts 0 (.storing 0)
    | .pong => enter attempts 0 (.loading 0)

/-- Where a thread goes after its store, and after the load that finds the number -/
def stored (attempts i : ℕ) : Role → Pc
  | .ping => .loading i
  | .pong => enter attempts (i + 1) (.loading (i + 1))

def loaded (attempts i : ℕ) : Role → Pc
  | .ping => enter attempts (i + 1) (.storing (i + 1))
  | .pong => .storing i

/-- The next step of the thread `r` -/
def step (attempts : ℕ) (s : State) (r : Role) : Option (State × List Event) :=
  match s.pc r with
  | .storing i =>
    some (⟨Function.update s.value r.other i, Function.update s.pc r (stored attempts i r)⟩,
      [.sent r i])
  | .loading i =>
    if s.value r = i then
      some ({ s with pc := Function.update s.pc r (loaded attempts i r) }, [.received r i])
    else some (s, [])
  | .returned => none

end Atomic

/-- `pingpong.cc` waits on a condition variable, `pingpong2.cc` unlocks and tries again. -/
inductive Mode where
  | wait
  | spin
  deriving DecidableEq

/-- Control points of a thread in round `i`: before it locks the mutex of the other one, before the
assignment, before the unlock, before `notify_one`; before it locks its own mutex, before the check,
blocked on its condition variable, and before the unlock after a check that succeeded. -/
inductive Pc where
  | sendLock (i : ℕ)
  | assigning (i : ℕ)
  | sendUnlock (i : ℕ)
  | notifying (i : ℕ)
  | awaitLock (i : ℕ)
  | checking (i : ℕ)
  | blocked (i : ℕ)
  | awaitUnlock (i : ℕ)
  | returned
  deriving DecidableEq

/-- `times .pong` is `pongTimes` and `owner .pong` the thread that holds `pongMutex`. -/
structure State where
  times : Role → ℕ
  owner : Role → Option Role
  pc : Role → Pc

/-- `thread r` is the next step of a thread, `spurious r` a wake-up without `notify_one`. -/
inductive Action where
  | thread (r : Role)
  | spurious (r : Role)
  deriving DecidableEq

/-- The loop condition -/
def enter (attempts : ℕ) (i : ℕ) (pc : Pc) : Pc := if i < attempts then pc else .returned

def init (attempts : ℕ) : State where
  times _ := attempts
  owner _ := none
  pc
    | .ping => enter attempts 0 (.sendLock 0)
    | .pong => enter attempts 0 (.awaitLock 0)

/-- Where a thread goes when it has notified the other one, and when it has received -/
def notified (attempts i : ℕ) : Role → Pc
  | .ping => .awaitLock i
  | .pong => enter attempts (i + 1) (.awaitLock (i + 1))

def received (attempts i : ℕ) : Role → Pc
  | .ping => enter attempts (i + 1) (.sendLock (i + 1))
  | .pong => .sendLock i

def State.setPc (s : State) (r : Role) (pc : Pc) : State :=
  { s with pc := Function.update s.pc r pc }

/-- `r` locks the mutex `m`; `try_lock` in a loop has the same effect. -/
def lock (s : State) (r m : Role) (pc : Pc) : Option (State × List Event) :=
  if s.owner m = none then
    some ({ s with owner := Function.update s.owner m (some r) }.setPc r pc, [])
  else none

def unlock (s : State) (r m : Role) (pc : Pc) : State :=
  { s with owner := Function.update s.owner m none }.setPc r pc

/-- `notify_one` on the condition variable that only `r` waits on -/
def State.wake (s : State) (r : Role) : State :=
  match s.pc r with
  | .blocked i => s.setPc r (.awaitLock i)
  | _ => s

/-- The next step of the thread `r` -/
def thread (mode : Mode) (attempts : ℕ) (s : State) (r : Role) : Option (State × List Event) :=
  match s.pc r with
  | .sendLock i => lock s r r.other (.assigning i)
  | .assigning i =>
    some ({ s with times := Function.update s.times r.other i }.setPc r (.sendUnlock i), [.sent r i])
  | .sendUnlock i => some (unlock s r r.other (.notifying i), [])
  | .notifying i => some ((s.wake r.other).setPc r (notified attempts i r), [])
  | .awaitLock i => lock s r r (.checking i)
  | .checking i =>
    if s.times r = i then some (s.setPc r (.awaitUnlock i), [.received r i])
    else
      match mode with
      | .wait => some (unlock s r r (.blocked i), [])
      | .spin => some (unlock s r r (.awaitLock i), [])
  | .blocked _ => none
  | .awaitUnlock i => some (unlock s r r (received attempts i r), [])
  | .returned => none

def spurious (s : State) (r : Role) : Option (State × List Event) :=
  match s.pc r with
  | .blocked i => some (s.setPc r (.awaitLock i), [])
  | _ => none

def step (mode : Mode) (attempts : ℕ) (s : State) : Action → Option (State × List Event)
  | .thread r => thread mode attempts s r
  | .spurious r => spurious s r

end CodeC.PingPong
