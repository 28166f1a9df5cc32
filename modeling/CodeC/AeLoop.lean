import CodeC.Library.Run
import Mathlib.Data.Int.Notation
import Mathlib.Logic.Function.Basic

/-!
# The event loop of `ae.c` over `epoll`

File events of `ae.c` with the functions of `ae_epoll.c`. A handler is a value of `π` and the pointer
registered with it a value of `δ`. While a handler runs it may call the functions of the loop, open
and close descriptors, in any order; `aeProcessEvents` goes on when it returns. The kernel may refuse any
call of `epoll_ctl`. Time events are not processed, `aeProcessEvents` has the calls commented out.
-/

namespace CodeC.AeLoop
open Library

variable {π δ : Type}

/-- The events a descriptor is watched for -/
structure EpollEvents where
  epollin : Bool
  epollout : Bool
  deriving DecidableEq

/-- The descriptors that are open, and those in the interest list of `epfd` -/
structure Epoll where
  opened : ℕ → Bool
  interest : ℕ → Option EpollEvents

inductive CtlOp where
  | add
  | mod
  | del

/-- `epoll_ctl`, `none` for a result of -1: the descriptor is not open, or it is in the list for
`EPOLL_CTL_ADD`, or it is not in the list for the other operations, or the call is `refused` for a reason
that these do not determine (`EPERM`, `EINVAL`, `ENOMEM`, `ENOSPC`). -/
def epollCtl (ep : Epoll) (op : CtlOp) (fd : ℕ) (ee : EpollEvents) (refused : Bool) :
    Option Epoll :=
  if ep.opened fd ∧ ¬refused then
    match op, ep.interest fd with
    | .add, none => some { ep with interest := Function.update ep.interest fd (some ee) }
    | .mod, some _ => some { ep with interest := Function.update ep.interest fd (some ee) }
    | .del, some _ => some { ep with interest := Function.update ep.interest fd none }
    | _, _ => none
  else none

/-- A new descriptor -/
def Epoll.open (ep : Epoll) (fd : ℕ) : Epoll := { ep with opened := Function.update ep.opened fd true }

/-- `close`: the kernel takes a closed descriptor off the interest list. -/
def Epoll.close (ep : Epoll) (fd : ℕ) : Epoll :=
  ⟨Function.update ep.opened fd false, Function.update ep.interest fd none⟩

def aeNone : BitVec 32 := 0#32

def aeReadable : BitVec 32 := 1#32

def aeWritable : BitVec 32 := 2#32

/-- A handler is `none` before it is stored, in memory that is not initialised. -/
structure FileEvent (π δ : Type) where
  mask : BitVec 32
  rfileProc : Option π
  wfileProc : Option π
  clientData : Option δ

/-- `epoll` is `apidata` with the kernel's object behind `epfd`. The entries of `events` from
`setsize` on are not part of the array. -/
structure EventLoop (π δ : Type) where
  maxfd : ℤ
  setsize : ℕ
  events : ℕ → FileEvent π δ
  stop : Bool
  epoll : Epoll

def EventLoop.setEvent (l : EventLoop π δ) (fd : ℕ) (fe : FileEvent π δ) : EventLoop π δ :=
  { l with events := Function.update l.events fd fe }

/-- `memory` is what the array holds after its allocation, `opened` the descriptors already open. -/
def aeCreateEventLoop (setsize : ℕ) (memory : ℕ → FileEvent π δ) (opened : ℕ → Bool) :
    EventLoop π δ :=
  ⟨-1, setsize, fun i => if i < setsize then { memory i with mask := aeNone } else memory i, false,
    ⟨opened, fun _ => none⟩⟩

/-- The result is `AE_OK`. `memory` is what the array holds behind its old end. -/
def aeResizeSetSize (l : EventLoop π δ) (setsize : ℕ) (memory : ℕ → FileEvent π δ) :
    EventLoop π δ × Bool :=
  if setsize = l.setsize then (l, true)
  else if l.maxfd ≥ setsize then (l, false)
  else
    let events := fun i => if i < l.setsize then l.events i else memory i
    ({ l with
      setsize := setsize
      events := fun i =>
        if l.maxfd + 1 ≤ i ∧ i < setsize then { events i with mask := aeNone } else events i }, true)

def aeStop (l : EventLoop π δ) : EventLoop π δ := { l with stop := true }

/-- The events `epoll` is asked for -/
def epollEvents (mask : BitVec 32) : EpollEvents :=
  ⟨mask &&& aeReadable != 0#32, mask &&& aeWritable != 0#32⟩

def aeApiAddEvent (l : EventLoop π δ) (fd : ℕ) (mask : BitVec 32) (refused : Bool) :
    Option (EventLoop π δ) :=
  let op := if (l.events fd).mask = aeNone then CtlOp.add else CtlOp.mod
  let mask := mask ||| (l.events fd).mask
  (epollCtl l.epoll op fd (epollEvents mask) refused).map fun ep => { l with epoll := ep }

/-- The result of `epoll_ctl` is ignored. -/
def aeApiDelEvent (l : EventLoop π δ) (fd : ℕ) (delmask : BitVec 32) (refused : Bool) :
    EventLoop π δ :=
  let mask := (l.events fd).mask &&& ~~~delmask
  let op := if mask ≠ aeNone then CtlOp.mod else CtlOp.del
  { l with epoll := (epollCtl l.epoll op fd (epollEvents mask) refused).getD l.epoll }

/-- The test of `maxfd` at the end of `aeCreateFileEvent` -/
def EventLoop.raiseMaxfd (l : EventLoop π δ) (fd : ℕ) : EventLoop π δ :=
  if fd > l.maxfd then { l with maxfd := fd } else l

/-- The result is `AE_OK`. -/
def aeCreateFileEvent (l : EventLoop π δ) (fd : ℕ) (mask : BitVec 32) (proc : π)
    (clientData : δ) (refused : Bool) : EventLoop π δ × Bool :=
  if fd ≥ l.setsize then (l, false)
  else
    match aeApiAddEvent l fd mask refused with
    | none => (l, false)
    | some l =>
      let fe := l.events fd
      let l := l.setEvent fd
        { mask := fe.mask ||| mask
          rfileProc := if mask &&& aeReadable ≠ 0#32 then some proc else fe.rfileProc
          wfileProc := if mask &&& aeWritable ≠ 0#32 then some proc else fe.wfileProc
          clientData := some clientData }
      (l.raiseMaxfd fd, true)

/-- The loop for the new `maxfd`: the last entry below `n` in use, -1 if there is none -/
def lastUsed (events : ℕ → FileEvent π δ) : ℕ → ℤ
  | 0 => -1
  | n + 1 => if (events n).mask ≠ aeNone then n else lastUsed events n

/-- Update the max fd -/
def EventLoop.lowerMaxfd (l : EventLoop π δ) (fd : ℕ) : EventLoop π δ :=
  if fd = l.maxfd ∧ (l.events fd).mask = aeNone then
    { l with maxfd := lastUsed l.events l.maxfd.toNat }
  else l

def aeDeleteFileEvent (l : EventLoop π δ) (fd : ℕ) (mask : BitVec 32) (refused : Bool) :
    EventLoop π δ :=
  if fd ≥ l.setsize then l
  else if (l.events fd).mask = aeNone then l
  else
    let l := aeApiDelEvent l fd mask refused
    let fe := l.events fd
    (l.setEvent fd { fe with mask := fe.mask &&& ~~~mask }).lowerMaxfd fd

def aeGetFileEvents (l : EventLoop π δ) (fd : ℕ) : BitVec 32 :=
  if fd ≥ l.setsize then 0#32 else (l.events fd).mask

/-- An entry that `epoll_wait` has filled -/
structure EpollEvent where
  fd : ℕ
  epollin : Bool
  epollout : Bool
  epollerr : Bool
  epollhup : Bool
  deriving DecidableEq

structure FiredEvent where
  fd : ℕ
  mask : BitVec 32
  deriving DecidableEq

/-- A round of the loop of `aeApiPoll` -/
def aeApiFired (e : EpollEvent) : FiredEvent :=
  let mask := 0#32
  let mask := if e.epollin then mask ||| aeReadable else mask
  let mask := if e.epollout then mask ||| aeWritable else mask
  let mask := if e.epollerr then mask ||| aeWritable else mask
  let mask := if e.epollhup then mask ||| aeWritable else mask
  ⟨e.fd, mask⟩

/-- What `epoll_wait` may return: a descriptor of the interest list at most once, with events it is
watched for and with errors, which are always reported. -/
def EpollEvent.Ready (ep : Epoll) (e : EpollEvent) : Prop :=
  ∃ ee, ep.interest e.fd = some ee ∧ (e.epollin → ee.epollin) ∧ (e.epollout → ee.epollout)

instance (ep : Epoll) (e : EpollEvent) : Decidable (e.Ready ep) :=
  match h : ep.interest e.fd with
  | none => isFalse (by simp [EpollEvent.Ready, h])
  | some ee =>
    decidable_of_iff ((e.epollin → ee.epollin) ∧ (e.epollout → ee.epollout))
      (by simp [EpollEvent.Ready, h])

def epollWait (l : EventLoop π δ) (es : List EpollEvent) : Prop :=
  es.length ≤ l.setsize ∧ (es.map EpollEvent.fd).Nodup ∧ ∀ e ∈ es, e.Ready l.epoll

instance (l : EventLoop π δ) (es : List EpollEvent) : Decidable (epollWait l es) :=
  inferInstanceAs (Decidable (_ ∧ _ ∧ _))

/-- Where the thread is: outside `aeProcessEvents`, at the head of its loop, or in the handler it has
called for reading or for writing. `rest` are the fired events that are left. -/
inductive Pc where
  | idle
  | dispatching (rest : List FiredEvent)
  | reading (fired : FiredEvent) (rest : List FiredEvent)
  | writing (fired : FiredEvent) (rest : List FiredEvent)
  deriving DecidableEq

structure State (π δ : Type) where
  loop : EventLoop π δ
  pc : Pc

/-- `poll` is the return of `epoll_wait`, `next` the next round of the loop and `ret` the return of the
handler that runs. The others are calls of the program, `refused` being the answer of the kernel;
`resize` is not called from a handler. -/
inductive Action (π δ : Type) where
  | create (fd : ℕ) (mask : BitVec 32) (proc : π) (clientData : δ) (refused : Bool)
  | delete (fd : ℕ) (mask : BitVec 32) (refused : Bool)
  | resize (setsize : ℕ) (memory : ℕ → FileEvent π δ)
  | stop
  | «open» (fd : ℕ)
  | close (fd : ℕ)
  | poll (es : List EpollEvent)
  | next
  | ret

inductive Direction where
  | reading
  | writing
  deriving DecidableEq

/-- `created` and `deleted` are calls of `aeCreateFileEvent` and `aeDeleteFileEvent`, the first with its
result; `call` is a call of a handler, with the direction it is registered for. -/
inductive Event (π δ : Type) where
  | created (fd : ℕ) (mask : BitVec 32) (proc : π) (clientData : δ) (ok : Bool)
  | deleted (fd : ℕ) (mask : BitVec 32)
  | call (d : Direction) (proc : Option π) (fd : ℕ) (clientData : Option δ) (mask : BitVec 32)
  deriving DecidableEq

/-- The program runs: in a handler, or outside `aeProcessEvents`. -/
def Pc.inProgram : Pc → Bool
  | .dispatching _ => false
  | _ => true

/-- The second half of a round: the test for `AE_WRITABLE` -/
def dispatchWrite [DecidableEq π] (s : State π δ) (rfired : Bool) (f : FiredEvent)
    (rest : List FiredEvent) : State π δ × List (Event π δ) :=
  let fe := s.loop.events f.fd
  if fe.mask &&& f.mask &&& aeWritable ≠ 0#32 ∧ (¬rfired ∨ fe.wfileProc ≠ fe.rfileProc) then
    ({ s with pc := .writing f rest }, [.call .writing fe.wfileProc f.fd fe.clientData f.mask])
  else ({ s with pc := .dispatching rest }, [])

/-- A round of the loop of `aeProcessEvents`, up to the first handler it calls -/
def dispatch [DecidableEq π] (s : State π δ) (f : FiredEvent) (rest : List FiredEvent) :
    State π δ × List (Event π δ) :=
  let fe := s.loop.events f.fd
  if fe.mask &&& f.mask &&& aeReadable ≠ 0#32 then
    ({ s with pc := .reading f rest }, [.call .reading fe.rfileProc f.fd fe.clientData f.mask])
  else dispatchWrite s false f rest

def step [DecidableEq π] (s : State π δ) : Action π δ → Option (State π δ × List (Event π δ))
  | .create fd mask proc clientData refused =>
    if s.pc.inProgram then
      let r := aeCreateFileEvent s.loop fd mask proc clientData refused
      some ({ s with loop := r.1 }, [.created fd mask proc clientData r.2])
    else none
  | .delete fd mask refused =>
    if s.pc.inProgram then
      some ({ s with loop := aeDeleteFileEvent s.loop fd mask refused }, [.deleted fd mask])
    else none
  | .resize setsize memory =>
    if s.pc = .idle then some ({ s with loop := (aeResizeSetSize s.loop setsize memory).1 }, [])
    else none
  | .stop => if s.pc.inProgram then some ({ s with loop := aeStop s.loop }, []) else none
  | .open fd =>
    if s.pc.inProgram ∧ ¬s.loop.epoll.opened fd then
      some ({ s with loop := { s.loop with epoll := s.loop.epoll.open fd } }, [])
    else none
  | .close fd =>
    if s.pc.inProgram ∧ s.loop.epoll.opened fd then
      some ({ s with loop := { s.loop with epoll := s.loop.epoll.close fd } }, [])
    else none
  | .poll es =>
    if s.pc = .idle ∧ ¬s.loop.stop ∧ epollWait s.loop es then
      some ({ s with pc := .dispatching (es.map aeApiFired) }, [])
    else none
  | .next =>
    match s.pc with
    | .dispatching [] => some ({ s with pc := .idle }, [])
    | .dispatching (f :: rest) => some (dispatch s f rest)
    | _ => none
  | .ret =>
    match s.pc with
    | .reading f rest => some (dispatchWrite s true f rest)
    | .writing _ rest => some ({ s with pc := .dispatching rest }, [])
    | _ => none

end CodeC.AeLoop
