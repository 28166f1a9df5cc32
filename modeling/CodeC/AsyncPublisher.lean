import CodeC.Library.Run
import CodeC.Library.SetIteration
import Mathlib.Logic.Function.Basic

/-!
# Publishing in `20221207-pubsub-libuv/message.hpp`

One `MessagePublisherDelegate` with its handle `async_publisher_` on the default loop. `Publish`
stores the buffer and then calls `uv_async_send`, which sets the pending flag of the handle.
The loop clears a set flag and runs `async_publisher_cb`, whose accesses to the delegate are
steps of their own. Nobody ever leaves `subscribers_`, because `async_subscriber_` is initialised
without a callback.
-/

namespace CodeC.AsyncPublisher
open Library

/-- A `Buffer`; `none` is the null pointer in `data_`. -/
structure Buffer where
  data : Option ℕ
  size : ℕ
  deriving DecidableEq, Repr

/-- Where the loop is in `async_publisher_cb`: before the test of `stop_`, before the test of
`data_`, or in the loop over `subscribers_`, whose body is the callback of a subscriber. -/
inductive Loop (n : ℕ) where
  | idle
  | entered
  | checked
  | iterating (c : Cursor n)
  | closed
  deriving DecidableEq

/-- The threads are the loop thread `none` and `m` other ones. `sending i` says that thread `i` is
between the store of a `Publish` or `Stop` and its `uv_async_send`. -/
structure State (n m : ℕ) where
  buffer : Buffer
  stop : Bool
  subscribers : Fin n → Bool
  sending : Option (Fin m) → Bool
  pending : Bool
  loop : Loop n

inductive Action (n m : ℕ) where
  | publish (i : Option (Fin m)) (buf : Buffer)
  | stop (i : Option (Fin m))
  | send (i : Option (Fin m))
  | subscribe (k : Fin n)
  | loop
  deriving DecidableEq

inductive Event (n : ℕ) where
  | delivered (k : Fin n) (buf : Buffer)
  deriving DecidableEq

variable {n m : ℕ}

def start : State n m := ⟨⟨none, 0⟩, false, fun _ => false, fun _ => false, false, .idle⟩

/-- A thread is about to call a member function. The loop thread does so from the callback of a
subscriber. -/
def free (s : State n m) : Option (Fin m) → Bool
  | some i => !s.sending (some i)
  | none =>
    match s.loop with
    | .iterating (.body _) => !s.sending none
    | _ => false

/-- The store of `MessagePublisherDelegate::Publish`. -/
def publish (s : State n m) (i : Option (Fin m)) (buf : Buffer) : State n m :=
  { s with buffer := buf, sending := Function.update s.sending i true }

/-- The store of `MessagePublisherDelegate::Stop`. -/
def stop (s : State n m) (i : Option (Fin m)) : State n m :=
  { s with stop := true, sending := Function.update s.sending i true }

/-- The `uv_async_send` of `Publish` and `Stop`. -/
def send (s : State n m) (i : Option (Fin m)) : State n m :=
  { s with pending := true, sending := Function.update s.sending i false }

/-- The loop clears a set flag and calls `async_publisher_cb`. -/
def runCallback (s : State n m) : Option (State n m) :=
  if s.pending then some { s with pending := false, loop := .entered } else none

/-- The test of `stop_`. When it is set the handle is closed. -/
def testStop (s : State n m) : State n m :=
  { s with loop := if s.stop then .closed else .checked }

/-- The test of `buffer_.data_`. -/
def testData (s : State n m) : State n m :=
  { s with
    loop := if s.buffer.data ≠ none then .iterating (.first s.subscribers) else .idle }

/-- The callback of subscriber `k` is called with a reference to `buffer_`. -/
def call (s : State n m) (k : Fin n) : State n m × List (Event n) :=
  ({ s with loop := .iterating (.body k) }, [.delivered k s.buffer])

/-- `buffer_.data_ = nullptr` at the end of `async_publisher_cb`. -/
def clear (s : State n m) : State n m :=
  { s with buffer := { s.buffer with data := none }, loop := .idle }

/-- The next access of the loop thread to the delegate. -/
def loopStep (s : State n m) : Option (State n m × List (Event n)) :=
  match s.loop with
  | .idle => (runCallback s).map fun s' => (s', [])
  | .entered => some (testStop s, [])
  | .checked => some (testData s, [])
  | .iterating (.head (some k)) => some (call s k)
  | .iterating (.head none) => some (clear s, [])
  -- a callback returns when a `Publish` or `Stop` in it has returned
  | .iterating (.body k) =>
    if s.sending none then none
    else some ({ s with loop := .iterating (.next s.subscribers k) }, [])
  | .closed => none

def step (s : State n m) : Action n m → Option (State n m × List (Event n))
  | .publish i buf => if free s i then some (publish s i buf, []) else none
  | .stop i => if free s i then some (stop s i, []) else none
  | .send i => if s.sending i then some (send s i, []) else none
  | .subscribe k =>
    if s.subscribers k then none
    else some ({ s with subscribers := Function.update s.subscribers k true }, [])
  | .loop => loopStep s

end CodeC.AsyncPublisher
