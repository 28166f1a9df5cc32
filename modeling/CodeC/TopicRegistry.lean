import CodeC.Library.Run
import Mathlib.Data.Finset.Insert
import Mathlib.Data.Fintype.Basic
import Mathlib.Data.List.AList
import Mathlib.Logic.Function.Basic

/-!
# The topic registry of `20221206-pubsub/message.hpp`

`GetTopics()` maps a topic to the `MessagePublisherDelegate` that its publishers and
subscribers share. Publishers and subscribers are constructed and destroyed in any order, at
addresses that may be used again. A delegate lives as long as a `shared_ptr` refers to it, and
its destructor calls `Stop`.
-/

namespace CodeC.TopicRegistry
open Library

/-- A `MessagePublisherDelegate`: the number of its allocation and its `topic_`, which is set
once by `GetOrNew`. -/
structure Delegate where
  serial : ℕ
  topic : String
  deriving DecidableEq, Repr

structure Subscriber where
  publisher : Delegate
  stop : Bool
  deriving DecidableEq, Repr

/-- The map of `GetTopics()`, the `subscribers_` of every delegate, the `delegate_` of the live
publishers and the live subscribers. A set `subscribers_` holds addresses and may also hold those
of destroyed subscribers. -/
structure State (m n : ℕ) where
  topics : AList (fun _ : String => Delegate)
  created : ℕ
  subscribers : Delegate → Finset (Fin n)
  publisher : Fin m → Option Delegate
  subscriber : Fin n → Option Subscriber

inductive Action (m n : ℕ) where
  | newPublisher (p : Fin m) (topic : String)
  | newSubscriber (q : Fin n) (topic : String)
  | stop (p : Fin m)
  | destroyPublisher (p : Fin m)
  | destroySubscriber (q : Fin n)
  deriving DecidableEq

variable {m n : ℕ}

def start : State m n := ⟨∅, 0, fun _ => ∅, fun _ => none, fun _ => none⟩

/-- `MessagePublisherDelegate::GetOrNew`. -/
def getOrNew (s : State m n) (topic : String) : State m n × Delegate :=
  match s.topics.lookup topic with
  | some d => (s, d)
  | none =>
    let d : Delegate := ⟨s.created, topic⟩
    ({ s with
        topics := s.topics.insert topic d
        created := s.created + 1
        subscribers := Function.update s.subscribers d ∅ }, d)

/-- A `shared_ptr` in the map, in a publisher or in a subscriber refers to the delegate. -/
def Held (s : State m n) (d : Delegate) : Prop :=
  (∃ e ∈ s.topics.entries, e.2 = d) ∨ (∃ p, s.publisher p = some d) ∨
    ∃ q, (s.subscriber q).map Subscriber.publisher = some d

instance (s : State m n) (d : Delegate) : Decidable (Held s d) :=
  inferInstanceAs (Decidable (_ ∨ _ ∨ _))

/-- `MessagePublisherDelegate::Stop` erases the entry of `topic_`, whichever delegate it refers
to, and sets the `stop_` of the subscribers. When the erased reference is the last one, the
destructor of that delegate locks `GetTopicsMutex()` a second time and the call never returns.
A write to a destroyed subscriber changes no live one. -/
def delegateStop (s : State m n) (d : Delegate) : Option (State m n) :=
  let erased := { s with topics := s.topics.erase d.topic }
  if ∀ d' ∈ s.topics.lookup d.topic, Held erased d' then
    some { erased with
      subscriber := fun q =>
        if q ∈ s.subscribers d then (s.subscriber q).map fun sub => { sub with stop := true }
        else s.subscriber q }
  else none

/-- A `shared_ptr` to the delegate has gone; the last one calls the destructor. -/
def release (s : State m n) (d : Delegate) : Option (State m n) :=
  if Held s d then some s else delegateStop s d

def newPublisher (s : State m n) (p : Fin m) (topic : String) : State m n :=
  let (s, d) := getOrNew s topic
  { s with publisher := Function.update s.publisher p (some d) }

def newSubscriber (s : State m n) (q : Fin n) (topic : String) : State m n :=
  let (s, d) := getOrNew s topic
  { s with
    subscribers := Function.update s.subscribers d (insert q (s.subscribers d))
    subscriber := Function.update s.subscriber q (some ⟨d, false⟩) }

/-- `~MessagePublisher`, then the destructor of its `delegate_`. -/
def destroyPublisher (s : State m n) (p : Fin m) (d : Delegate) : Option (State m n) :=
  match delegateStop s d with
  | none => none
  | some s => release { s with publisher := Function.update s.publisher p none } d

/-- `~MessageSubscriber` calls `Stop` unless `stop_` is set, so a subscriber that its delegate has
stopped stays in `subscribers_`. Then the destructor of its `publisher_` runs. -/
def destroySubscriber (s : State m n) (q : Fin n) (sub : Subscriber) : Option (State m n) :=
  let d := sub.publisher
  let subscribers :=
    if sub.stop then s.subscribers
    else Function.update s.subscribers d ((s.subscribers d).erase q)
  release { s with subscribers := subscribers, subscriber := Function.update s.subscriber q none } d

def step (s : State m n) : Action m n → Option (State m n)
  | .newPublisher p topic => if s.publisher p = none then some (newPublisher s p topic) else none
  | .newSubscriber q topic => if s.subscriber q = none then some (newSubscriber s q topic) else none
  | .stop p => (s.publisher p).bind (delegateStop s)
  | .destroyPublisher p => (s.publisher p).bind (destroyPublisher s p)
  | .destroySubscriber q => (s.subscriber q).bind (destroySubscriber s q)

end CodeC.TopicRegistry
