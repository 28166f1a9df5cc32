import CodeC.Library.Run
import Mathlib.Data.List.FinRange
import Mathlib.Logic.Function.Basic

/-!
# Delivery in `20221211-pubsub-libuv-multithread/message.hpp`

One `MessagePublisherDelegate` and the event loops of its subscribers. `Publish` runs under
`subscribers_mutex_` and posts to one subscriber after the other; a `Post` is a store to
`buffer_` and then `uv_async_send`, which sets the pending flag of the handle. The loop of a
subscriber clears a set flag and runs `async_subscriber_cb`, whose loads are steps of their own.
-/

namespace CodeC.AsyncSubscribers
open Library

/-- What one call of `Publish` posts: its place in the order of the calls, and the pointer, where
`none` is null. -/
structure Message where
  serial : ℕ
  buf : Option ℕ
  deriving DecidableEq, Repr

/-- The holder of `subscribers_mutex_` in `Publish`: before the store of a `Post`, or between its
store and its send. -/
inductive Publishing (n : ℕ) where
  | unlocked
  | posting (msg : Message) (todo : List (Fin n))
  | sending (msg : Message) (k : Fin n) (todo : List (Fin n))
  deriving DecidableEq

/-- Where the loop of a subscriber is in `async_subscriber_cb`. -/
inductive Loop where
  | unborn
  | idle
  | entered
  | checked
  | loaded (msg : Option Message)
  | closing
  | closed
  deriving DecidableEq, Repr

/-- `stopSends` counts the calls of `Stop` between their store and their send. -/
structure State (n : ℕ) where
  published : ℕ
  publishing : Publishing n
  subscribers : Fin n → Bool
  buffer : Fin n → Option Message
  stop : Fin n → Bool
  stopSends : Fin n → ℕ
  pending : Fin n → Bool
  loop : Fin n → Loop

inductive Action (n : ℕ) where
  | publish (buf : Option ℕ)
  | publisher
  | subscribe (k : Fin n)
  | loop (k : Fin n)
  | stop (k : Fin n)
  | stopSend (k : Fin n)
  deriving DecidableEq

inductive Event (n : ℕ) where
  | published (msg : Message)
  | posted (k : Fin n) (msg : Message)
  | loaded (k : Fin n) (msg : Message)
  | delivered (k : Fin n) (msg : Message)
  deriving DecidableEq

variable {n : ℕ}

def start : State n :=
  ⟨0, .unlocked, fun _ => false, fun _ => none, fun _ => false, fun _ => 0, fun _ => false,
    fun _ => .unborn⟩

/-- `MessagePublisherDelegate::Publish` locks `subscribers_mutex_`. -/
def publish (s : State n) (buf : Option ℕ) : State n × List (Event n) :=
  let msg : Message := ⟨s.published, buf⟩
  ({ s with
      published := s.published + 1
      publishing := .posting msg ((List.finRange n).filter s.subscribers) }, [.published msg])

/-- The store of `Post`. -/
def postStore (s : State n) (msg : Message) (k : Fin n) (todo : List (Fin n)) :
    State n × List (Event n) :=
  ({ s with
      publishing := .sending msg k todo
      buffer := Function.update s.buffer k (some msg) }, [.posted k msg])

/-- The `uv_async_send` of `Post`. -/
def postSend (s : State n) (msg : Message) (k : Fin n) (todo : List (Fin n)) : State n :=
  { s with
    publishing := .posting msg todo
    pending := Function.update s.pending k true }

def State.setLoop (s : State n) (k : Fin n) (pc : Loop) : State n :=
  { s with loop := Function.update s.loop k pc }

/-- The loop clears a set flag and calls `async_subscriber_cb`. -/
def runCallback (s : State n) (k : Fin n) : Option (State n) :=
  if s.pending k then
    some { s with
      pending := Function.update s.pending k false
      loop := Function.update s.loop k .entered }
  else none

/-- The load of `stop_`. When it is set the handle is closed. -/
def loadStop (s : State n) (k : Fin n) : State n :=
  if s.stop k then s.setLoop k .closing else s.setLoop k .checked

/-- The load of `buffer_`, which stays as it is. -/
def loadBuffer (s : State n) (k : Fin n) : State n × List (Event n) :=
  (s.setLoop k (.loaded (s.buffer k)), (s.buffer k).toList.map (.loaded k))

/-- The callback is called for a pointer that is not null. -/
def callback (s : State n) (k : Fin n) (msg : Option Message) : State n × List (Event n) :=
  (s.setLoop k .idle, (msg.filter fun m => m.buf.isSome).toList.map (.delivered k))

/-- A subscriber that is closing leaves `subscribers_` under the mutex. -/
def leave (s : State n) (k : Fin n) : Option (State n) :=
  match s.publishing with
  | .unlocked =>
    some { s with
      subscribers := Function.update s.subscribers k false
      loop := Function.update s.loop k .closed }
  | _ => none

def step (s : State n) : Action n → Option (State n × List (Event n))
  | .publish buf =>
    match s.publishing with
    | .unlocked => some (publish s buf)
    | _ => none
  | .publisher =>
    match s.publishing with
    | .unlocked => none
    | .posting _ [] => some ({ s with publishing := .unlocked }, [])
    | .posting msg (k :: todo) => some (postStore s msg k todo)
    | .sending msg k todo => some (postSend s msg k todo, [])
  | .subscribe k =>
    match s.publishing, s.loop k with
    | .unlocked, .unborn =>
      some ({ s with
        subscribers := Function.update s.subscribers k true
        loop := Function.update s.loop k .idle }, [])
    | _, _ => none
  | .loop k =>
    match s.loop k with
    | .unborn => none
    | .idle => (runCallback s k).map fun s' => (s', [])
    | .entered => some (loadStop s k, [])
    | .checked => some (loadBuffer s k)
    | .loaded msg => some (callback s k msg)
    | .closing => (leave s k).map fun s' => (s', [])
    | .closed => none
  | .stop k =>
    some ({ s with
      stop := Function.update s.stop k true
      stopSends := Function.update s.stopSends k (s.stopSends k + 1) }, [])
  | .stopSend k =>
    if s.stopSends k = 0 then none
    else some ({ s with
      stopSends := Function.update s.stopSends k (s.stopSends k - 1)
      pending := Function.update s.pending k true }, [])

end CodeC.AsyncSubscribers
