import CodeC.Library.Multicast
import Mathlib.Logic.Function.Basic

/-!
# Service discovery of `pubsub-shm-udp-3`

Every `MessagePublisher` and every `MessageSubscriber` owns a `ServiceDiscover` and is one
party. Its constructor joins the multicast group, registers a callback with `Recv` and
announces itself with `Send`. The parties run these three steps and receive datagrams in any
order. A datagram is the topic string and the `sockaddr_in` that follows it.
-/

namespace CodeC.Discovery

open Library

variable {n : ℕ} {A : Type}

def subTopic (topic : String) : String := "message/" ++ topic ++ "/sub"

def pubTopic (topic : String) : String := "message/" ++ topic ++ "/pub"

inductive Role where
  | publisher
  | subscriber
  deriving DecidableEq

/-- The parties. `addr` is the `sockname` of a subscriber, and the uninitialised `addr` that a
publisher announces. Two sockets are never bound to the same address. -/
structure Network (n : ℕ) (A : Type) where
  role : Fin n → Role
  topic : Fin n → String
  addr : Fin n → A
  addr_inj : ∀ p q, role p = .subscriber → role q = .subscriber → addr p = addr q → p = q

structure Datagram (A : Type) where
  topic : String
  payload : A
  deriving DecidableEq

/-- The `discover_callback` of a publisher appends the address to `subs_`, the one of a
subscriber sends its own address again. -/
inductive Callback where
  | pushSub
  | sendAddr
  deriving DecidableEq

inductive Stage where
  | created
  | joined
  | registered
  | running
  deriving DecidableEq

def Stage.isJoined : Stage → Bool
  | .created => false
  | _ => true

def Stage.isRegistered : Stage → Bool
  | .registered => true
  | .running => true
  | _ => false

/-- `callbacks_` of the `ServiceDiscover` and `subs_` of a publisher. -/
structure Party (A : Type) where
  stage : Stage
  callbacks : String → List Callback
  subs : List A

structure State (n : ℕ) (A : Type) where
  party : Fin n → Party A
  inFlight : List (Fin n × Datagram A)

inductive Action (n : ℕ) (A : Type) where
  | join (p : Fin n)
  | register (p : Fin n)
  | announce (p : Fin n)
  | deliver (r : Fin n) (d : Datagram A)

def start : State n A := ⟨fun _ => ⟨.created, fun _ => [], []⟩, []⟩

def State.setParty (s : State n A) (p : Fin n) (x : Party A) : State n A :=
  { s with party := Function.update s.party p x }

/-- `ServiceDiscover::Send`. -/
def send (s : State n A) (d : Datagram A) : State n A :=
  { s with inFlight := multicast s.inFlight (fun r => (s.party r).stage.isJoined) d }

/-- `ServiceDiscover::Recv`. -/
def recv (x : Party A) (topic : String) (callback : Callback) : Party A :=
  { x with callbacks := Function.update x.callbacks topic (x.callbacks topic ++ [callback]) }

/-- The topic a party registers its callback for. -/
def recvTopic (net : Network n A) (p : Fin n) : String :=
  match net.role p with
  | .publisher => subTopic (net.topic p)
  | .subscriber => pubTopic (net.topic p)

def discoverCallback (net : Network n A) (p : Fin n) : Callback :=
  match net.role p with
  | .publisher => .pushSub
  | .subscriber => .sendAddr

/-- The datagram a party sends at the end of its constructor. -/
def announcement (net : Network n A) (p : Fin n) : Datagram A :=
  match net.role p with
  | .publisher => ⟨pubTopic (net.topic p), net.addr p⟩
  | .subscriber => ⟨subTopic (net.topic p), net.addr p⟩

def runCallback (net : Network n A) (r : Fin n) (d : Datagram A) (s : State n A) :
    Callback → State n A
  | .pushSub => s.setParty r { s.party r with subs := (s.party r).subs ++ [d.payload] }
  | .sendAddr => send s ⟨subTopic (net.topic r), net.addr r⟩

/-- `discover_read_cb`: run the callbacks registered for the topic of the datagram, none when
nothing is registered. -/
def discoverReadCb (net : Network n A) (s : State n A) (r : Fin n) (d : Datagram A) :
    State n A :=
  ((s.party r).callbacks d.topic).foldl (runCallback net r d) s

def step [DecidableEq A] (net : Network n A) (s : State n A) : Action n A → Option (State n A)
  | .join p =>
    match (s.party p).stage with
    | .created => some (s.setParty p { s.party p with stage := .joined })
    | _ => none
  | .register p =>
    match (s.party p).stage with
    | .joined =>
      some (s.setParty p { recv (s.party p) (recvTopic net p) (discoverCallback net p) with
        stage := .registered })
    | _ => none
  | .announce p =>
    match (s.party p).stage with
    | .registered =>
      some (send (s.setParty p { s.party p with stage := .running }) (announcement net p))
    | _ => none
  | .deliver r d =>
    if (r, d) ∈ s.inFlight then
      some (discoverReadCb net { s with inFlight := s.inFlight.erase (r, d) } r d)
    else none

def kNotifyRead : Char := 'r'

/-- The notifications `MessagePublisher::Publish` sends, one for each element of `subs_`. -/
def publish (x : Party A) : List (A × Char) := x.subs.map fun sub => (sub, kNotifyRead)

end CodeC.Discovery
