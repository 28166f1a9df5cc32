import CodeC.Library.Run
import Mathlib.Data.List.Basic
import Mathlib.Logic.Function.Basic

/-!
# The event loop of `tcp_echo_server_epoll.c`

One loop serves all clients with a single buffer `buf` and a single length `len`. The kernel
reports events in batches; level-triggered events that are not handled are reported again. The
loop variable `ret` that bounds the batch is also assigned the results of the calls made for an
event. These are 0 in the end, so the rest of the batch is dropped.
-/

namespace CodeC.EpollEcho
open Library

variable {κ : Type} [DecidableEq κ]

/-- What a client is registered for with `epoll_ctl`: `EPOLLIN`, and `EPOLLOUT` when `out` is
set. -/
inductive Interest where
  | unborn
  | registered (out : Bool)
  | closed
  deriving DecidableEq, Repr

/-- An entry of `ev`; `source` is `none` for the listening socket. An entry without `EPOLLIN` and
`EPOLLOUT` has `EPOLLERR` or `EPOLLHUP`. -/
structure Ready (κ : Type) where
  source : Option κ
  epollin : Bool
  epollout : Bool
  deriving DecidableEq

/-- `buf` holds the first `len` bytes of the buffer, and `ev` the entries of the batch from `ev[i]`
on. -/
structure State (κ : Type) where
  interest : κ → Interest
  buf : List UInt8
  ev : List (Ready κ)

/-- `wait` is `epoll_wait` with the batch it reports, `accept` and `read` are the handling of
`ev[i]` with what the kernel returns, and `next` is the handling of an entry without `EPOLLIN`. -/
inductive Action (κ : Type) where
  | wait (ev : List (Ready κ))
  | accept (c : κ)
  | read (bytes : List UInt8)
  | next
  deriving DecidableEq

inductive Event (κ : Type) where
  | received (c : κ) (bytes : List UInt8)
  | written (c : κ) (bytes : List UInt8)
  deriving DecidableEq

def start : State κ := ⟨fun _ => .unborn, [], []⟩

/-- `MAX` -/
def max : ℕ := 10

/-- The kernel reports what the descriptor is registered for. -/
def reported (s : State κ) (e : Ready κ) : Bool :=
  match e.source with
  | none => !e.epollout
  | some c =>
    match s.interest c with
    | .registered out => out || !e.epollout
    | _ => false

/-- A new client is added to the epoll set. -/
def accept (s : State κ) (c : κ) : State κ :=
  { s with interest := Function.update s.interest c (.registered false), ev := [] }

/-- `read` has returned; no bytes are the end of the stream. -/
def read (s : State κ) (c : κ) (bytes : List UInt8) : State κ × List (Event κ) :=
  if bytes = [] then ({ s with interest := Function.update s.interest c .closed, ev := [] }, [])
  else
    ({ interest := Function.update s.interest c (.registered true), buf := bytes, ev := [] },
      [.received c bytes])

/-- `write` sends the whole of `buf`. -/
def write (s : State κ) (c : κ) : State κ × List (Event κ) :=
  ({ interest := Function.update s.interest c (.registered false), buf := [], ev := [] },
    [.written c s.buf])

def step (s : State κ) : Action κ → Option (State κ × List (Event κ))
  | .wait ev =>
    if s.ev = [] ∧ ev.length ≤ max ∧ (ev.map Ready.source).Nodup ∧ ev.all (reported s) then
      some ({ s with ev := ev }, [])
    else none
  | .accept c =>
    match s.ev with
    | ⟨none, true, _⟩ :: _ => if s.interest c = .unborn then some (accept s c, []) else none
    | _ => none
  | .read bytes =>
    match s.ev with
    | ⟨some c, true, _⟩ :: _ => if bytes.length ≤ 64 then some (read s c bytes) else none
    | _ => none
  | .next =>
    match s.ev with
    | ⟨some c, false, true⟩ :: ev =>
      some (if s.buf ≠ [] then write s c else ({ s with ev := ev }, []))
    | ⟨_, false, _⟩ :: ev => some ({ s with ev := ev }, [])
    | _ => none

end CodeC.EpollEcho
