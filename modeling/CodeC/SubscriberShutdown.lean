import CodeC.Library.Run
import CodeC.Library.SetIteration
import Mathlib.Logic.Function.Basic

/-!
# Construction and shutdown of subscribers in `20221206-pubsub/message.hpp`

The constructors of `n` subscribers on one topic run beside `m` calls of
`MessagePublisherDelegate::Stop`. `GetOrNew` and the erasure of the topic are critical sections of
`GetTopicsMutex()`. A constructor inserts its subscriber under `subscribers_mutex_`, while `Stop`
goes through `subscribers_` under `mutex_`, so the two can overlap. The thread of a subscriber
takes `mutex_` for each turn of its loop.
-/

namespace CodeC.SubscriberShutdown
open Library

/-- How far the constructor of a subscriber is, and the delegate that `GetOrNew` gave it. -/
inductive Constructor where
  | unborn
  | got (d : ℕ)
  | inserted (d : ℕ)
  | initialised (d : ℕ)
  | built (d : ℕ)
  deriving DecidableEq, Repr

/-- How far a call of `Stop` is. It holds `mutex_` while it is `sweeping`, and it has `notify_all`
still to make when it has `swept`. -/
inductive Stopping (n : ℕ) where
  | idle
  | erased (d : ℕ)
  | sweeping (d : ℕ) (c : Cursor n)
  | swept (d : ℕ)
  | returned (d : ℕ)
  deriving DecidableEq

/-- The thread of a subscriber: before the lock at the top of its loop, in `cond_.wait`, or out of
the loop. -/
inductive Thread where
  | unstarted
  | looping
  | waiting (notified : Bool)
  | returned
  deriving DecidableEq, Repr

/-- `topic` is the entry of the topic in `GetTopics()`; delegates are numbered in the order of their
creation. -/
structure State (n m : ℕ) where
  topic : Option ℕ
  created : ℕ
  subscribers : ℕ → Fin n → Bool
  stop : Fin n → Bool
  constructor : Fin n → Constructor
  stopping : Fin m → Stopping n
  thread : Fin n → Thread

inductive Action (n m : ℕ) where
  | newPublisher
  | construct (k : Fin n)
  | stop (j : Fin m) (d : ℕ)
  | stopping (j : Fin m)
  | enter (k : Fin n)
  | wake (k : Fin n)
  deriving DecidableEq

variable {n m : ℕ}

/-- `stop_` has no value before its constructor sets it. -/
def start (stop : Fin n → Bool) : State n m :=
  ⟨none, 0, fun _ _ => false, stop, fun _ => .unborn, fun _ => .idle, fun _ => .unstarted⟩

/-- `MessagePublisherDelegate::GetOrNew`. -/
def getOrNew (s : State n m) : State n m × ℕ :=
  match s.topic with
  | some d => (s, d)
  | none => ({ s with topic := some s.created, created := s.created + 1 }, s.created)

def State.setConstructor (s : State n m) (k : Fin n) (pc : Constructor) : State n m :=
  { s with constructor := Function.update s.constructor k pc }

def State.setStopping (s : State n m) (j : Fin m) (pc : Stopping n) : State n m :=
  { s with stopping := Function.update s.stopping j pc }

/-- `delegate->subscribers_.insert(this)`. -/
def insert (s : State n m) (k : Fin n) (d : ℕ) : State n m :=
  { s with
    subscribers := Function.update s.subscribers d (Function.update (s.subscribers d) k true)
    constructor := Function.update s.constructor k (.inserted d) }

/-- `stop_ = false`. -/
def initialise (s : State n m) (k : Fin n) (d : ℕ) : State n m :=
  { s with
    stop := Function.update s.stop k false
    constructor := Function.update s.constructor k (.initialised d) }

/-- The other members are set and the thread is started. -/
def startThread (s : State n m) (k : Fin n) (d : ℕ) : State n m :=
  { s with
    thread := Function.update s.thread k .looping
    constructor := Function.update s.constructor k (.built d) }

/-- The next step of `MessageSubscriber::MessageSubscriber`. -/
def construct (s : State n m) (k : Fin n) : Option (State n m) :=
  match s.constructor k with
  | .unborn => some ((getOrNew s).1.setConstructor k (.got (getOrNew s).2))
  | .got d => some (insert s k d)
  | .inserted d => some (initialise s k d)
  | .initialised d => some (startThread s k d)
  | .built _ => none

def Stopping.locks (d : ℕ) : Stopping n → Bool
  | .sweeping d' _ => d' == d
  | _ => false

/-- A call of `Stop` holds `mutex_` of the delegate. -/
def locked (s : State n m) (d : ℕ) : Bool := (List.finRange m).any fun j => (s.stopping j).locks d

/-- `MessagePublisherDelegate::Stop` erases the topic. -/
def eraseTopic (s : State n m) (j : Fin m) (d : ℕ) : State n m :=
  { s with topic := none, stopping := Function.update s.stopping j (.erased d) }

/-- `sub->stop_ = true` for the subscriber the loop has reached. -/
def stopSubscriber (s : State n m) (j : Fin m) (d : ℕ) (k : Fin n) : State n m :=
  { s with
    stop := Function.update s.stop k true
    stopping := Function.update s.stopping j (.sweeping d (.body k)) }

def Thread.notify : Thread → Thread
  | .waiting _ => .waiting true
  | th => th

/-- `cond_.notify_all()` reaches the threads that wait on the delegate. -/
def notifyAll (s : State n m) (j : Fin m) (d : ℕ) : State n m :=
  { s with
    thread := fun k => if s.constructor k = .built d then (s.thread k).notify else s.thread k
    stopping := Function.update s.stopping j (.returned d) }

/-- The next step of a call of `Stop` after the erasure. -/
def stoppingStep (s : State n m) (j : Fin m) : Option (State n m) :=
  match s.stopping j with
  | .idle => none
  | .erased d =>
    if locked s d then none
    else some (s.setStopping j (.sweeping d (.first (s.subscribers d))))
  | .sweeping d (.head (some k)) => some (stopSubscriber s j d k)
  | .sweeping d (.body k) => some (s.setStopping j (.sweeping d (.next (s.subscribers d) k)))
  | .sweeping d (.head none) => some (s.setStopping j (.swept d))
  | .swept d => some (notifyAll s j d)
  | .returned _ => none

/-- The top of the loop of a subscriber's thread. Nothing is published, so it goes on to wait. -/
def enter (s : State n m) (k : Fin n) : State n m :=
  { s with
    thread := Function.update s.thread k (if s.stop k then .returned else .waiting false) }

def step (s : State n m) : Action n m → Option (State n m)
  | .newPublisher => some (getOrNew s).1
  | .construct k => construct s k
  | .stop j d =>
    match s.stopping j with
    | .idle => if d < s.created then some (eraseTopic s j d) else none
    | _ => none
  | .stopping j => stoppingStep s j
  | .enter k =>
    match s.thread k, s.constructor k with
    | .looping, .built d => if locked s d then none else some (enter s k)
    | _, _ => none
  -- `cond_.wait` returns after a notification or spuriously
  | .wake k =>
    match s.thread k, s.constructor k with
    | .waiting _, .built d =>
      if locked s d then none
      else some { s with thread := Function.update s.thread k .looping }
    | _, _ => none

end CodeC.SubscriberShutdown
