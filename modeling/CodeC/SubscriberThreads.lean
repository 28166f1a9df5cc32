import CodeC.Library.Run
import Mathlib.Logic.Function.Basic

/-!
# Delivery in `20221206-pubsub/message.hpp`

One `MessagePublisherDelegate` and the threads of its subscribers. Each critical section under
`mutex_` is one step. A `Publish` stores the same new buffer for every subscriber and notifies
within the section. A subscriber thread waits at most once per turn of its loop, and after the
wait it takes whatever its `buffer_` holds.
-/

namespace CodeC.SubscriberThreads
open Library

/-- A `Buffer` allocated by `Publish`, numbered in the order of allocation; `none` is the null
pointer in `data_`. -/
structure Buffer where
  serial : ℕ
  data : Option ℕ
  size : ℕ
  deriving DecidableEq, Repr

/-- Where the thread of a subscriber is: before the lock at the top of its loop, in `cond_.wait`,
past the unlock with what it took, or out of the loop. -/
inductive Thread where
  | unstarted
  | looping
  | waiting (notified : Bool)
  | took (buf : Option Buffer)
  | returned
  deriving DecidableEq, Repr

/-- `notifies` counts the calls of `notify_all` that a `Stop` has still to make. -/
structure State (n : ℕ) where
  allocated : ℕ
  subscribers : Fin n → Bool
  buffer : Fin n → Option Buffer
  stop : Fin n → Bool
  thread : Fin n → Thread
  notifies : ℕ

inductive Action (n : ℕ) where
  | publish (data : Option ℕ) (size : ℕ)
  | subscribe (k : Fin n)
  | enter (k : Fin n)
  | wake (k : Fin n)
  | callback (k : Fin n)
  | stop (k : Fin n)
  | stopDelegate
  | notifyAll
  deriving DecidableEq

inductive Event (n : ℕ) where
  | published (buf : Buffer)
  | subscribed (k : Fin n)
  | taken (k : Fin n) (buf : Buffer)
  | delivered (k : Fin n) (buf : Buffer)
  deriving DecidableEq

variable {n : ℕ}

def start : State n :=
  ⟨0, fun _ => false, fun _ => none, fun _ => false, fun _ => .unstarted, 0⟩

def Thread.notify : Thread → Thread
  | .waiting _ => .waiting true
  | th => th

/-- `MessagePublisherDelegate::Publish`. -/
def publish (s : State n) (data : Option ℕ) (size : ℕ) : State n × List (Event n) :=
  let buf : Buffer := ⟨s.allocated, data, size⟩
  ({ s with
      allocated := s.allocated + 1
      buffer := fun k => if s.subscribers k then some buf else s.buffer k
      thread := fun k => (s.thread k).notify }, [.published buf])

/-- The constructor of `MessageSubscriber`. -/
def subscribe (s : State n) (k : Fin n) : State n × List (Event n) :=
  ({ s with
      subscribers := Function.update s.subscribers k true
      thread := Function.update s.thread k .looping }, [.subscribed k])

/-- The thread swaps its empty `buf` with `buffer_` and unlocks. -/
def swapBuffer (s : State n) (k : Fin n) : State n × List (Event n) :=
  ({ s with
      buffer := Function.update s.buffer k none
      thread := Function.update s.thread k (.took (s.buffer k)) },
    (s.buffer k).toList.map (.taken k))

/-- The top of the loop, up to the wait or the unlock. -/
def enter (s : State n) (k : Fin n) : State n × List (Event n) :=
  if s.stop k then ({ s with thread := Function.update s.thread k .returned }, [])
  else if s.buffer k = none then
    ({ s with thread := Function.update s.thread k (.waiting false) }, [])
  else swapBuffer s k

/-- The end of the loop body. The callback is called for a buffer with data. -/
def callback (s : State n) (k : Fin n) (buf : Option Buffer) : State n × List (Event n) :=
  ({ s with thread := Function.update s.thread k .looping },
    (buf.filter fun b => b.data.isSome).toList.map (.delivered k))

/-- `MessageSubscriber::Stop` up to its unlock. -/
def stop (s : State n) (k : Fin n) : State n :=
  { s with
    subscribers := Function.update s.subscribers k false
    stop := Function.update s.stop k true
    notifies := s.notifies + 1 }

/-- `MessagePublisherDelegate::Stop` up to its unlock. -/
def stopDelegate (s : State n) : State n :=
  { s with
    stop := fun k => s.subscribers k || s.stop k
    notifies := s.notifies + 1 }

def step (s : State n) : Action n → Option (State n × List (Event n))
  | .publish data size => some (publish s data size)
  | .subscribe k =>
    match s.thread k with
    | .unstarted => some (subscribe s k)
    | _ => none
  | .enter k =>
    match s.thread k with
    | .looping => some (enter s k)
    | _ => none
  -- `cond_.wait` returns after a notification or spuriously
  | .wake k =>
    match s.thread k with
    | .waiting _ => some (swapBuffer s k)
    | _ => none
  | .callback k =>
    match s.thread k with
    | .took buf => some (callback s k buf)
    | _ => none
  | .stop k =>
    match s.thread k with
    | .unstarted => none
    | _ => some (stop s k, [])
  | .stopDelegate => some (stopDelegate s, [])
  | .notifyAll =>
    if s.notifies = 0 then none
    else some ({ s with
      thread := fun k => (s.thread k).notify
      notifies := s.notifies - 1 }, [])

end CodeC.SubscriberThreads
