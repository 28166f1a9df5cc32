import CodeC.AeLoop
import CodeC.Httpd

/-!
# A thread of `chuqq_httpd_nodelay.c`

The event loop of one thread with the three handlers it registers, over the sockets of all its
clients. A run of a handler is one step: nothing else of the thread happens in between. What the
system calls return is chosen by the action, `epoll_ctl` included. The handlers ignore the result of
`aeCreateFileEvent`.
-/

namespace CodeC.HttpdThread
open Library AeLoop

/-- The functions that are registered -/
inductive Proc where
  | accept
  | readable
  | writeable
  deriving DecidableEq

/-- The pointers that are registered: the `thread_t`, and the `connection_t` of the `c`-th `calloc` -/
inductive Data where
  | thread
  | conn (c : ℕ)
  deriving DecidableEq

/-- `connection_t`; `buf` holds the first `cur` bytes of the buffer. -/
structure Conn where
  fd : ℕ
  buf : List UInt8
  writeCur : ℕ

/-- A call of a handler -/
structure Call where
  proc : Option Proc
  fd : ℕ
  data : Option Data

/-- `conns` has the connections that are allocated, `next` is the number of the next one. `input` has
the bytes that the client of a descriptor has sent and that have not been read. -/
structure State where
  ae : AeLoop.State Proc Data
  running : Option Call
  listenfd : ℕ
  conns : ℕ → Option Conn
  next : ℕ
  input : ℕ → List UInt8

/-- What `accept`, `read` and `write` return. The number of bytes of `write` is `none` for -1. -/
inductive Answer where
  | accepted (fd : ℕ) (input : List UInt8)
  | acceptError
  | read (n : ℕ)
  | readError
  | write (n : Option ℕ)

/-- Whether the kernel refuses the `epoll_ctl` of the `aeDeleteFileEvent` and of the `aeCreateFileEvent`
that a handler calls -/
structure Refused where
  delete : Bool
  create : Bool

inductive Action where
  | poll (es : List EpollEvent)
  | next
  | handle (answer : Answer) (refused : Refused)

/-- `fault` is a call of a handler with a pointer that is not the one of a live object it expects,
`freedRead` the read of `conn->cur` behind `free(conn)`. `unregistered` is an error of the
`aeCreateFileEvent` for a connection. -/
inductive Event where
  | accepted (c fd : ℕ) (input : List UInt8)
  | sent (c : ℕ) (bytes : List UInt8)
  | closed (c : ℕ)
  | freedRead (c : ℕ)
  | unregistered (c : ℕ)
  | fault
  deriving DecidableEq

/-- What a handler does: its changes of the memory and of the sockets, its calls of the loop and of the
kernel, and what is seen of it -/
structure Effect where
  conns : ℕ → Option Conn
  next : ℕ
  input : ℕ → List UInt8
  calls : List (AeLoop.Action Proc Data)
  events : List Event

def socketAccept (s : State) (refused : Refused) : Answer → Option Effect
  | .acceptError => some ⟨s.conns, s.next, s.input, [], []⟩
  | .accepted fd input =>
    some ⟨Function.update s.conns s.next (some ⟨fd, [], 0⟩), s.next + 1,
      Function.update s.input fd input,
      [.open fd, .create fd aeReadable .readable (.conn s.next) refused.create],
      [.accepted s.next fd input]⟩
  | _ => none

/-- `aeDeleteFileEvent`, `close` and `free` -/
def closeConn (s : State) (refused : Refused) (c fd : ℕ) (mask : BitVec 32) (events : List Event) :
    Effect :=
  ⟨Function.update s.conns c none, s.next, s.input, [.delete fd mask refused.delete, .close fd],
    events⟩

/-- `read` returns 0 only at the end of the stream or when no space is offered. -/
def socketReadable (s : State) (refused : Refused) (c : ℕ) (conn : Conn) (fd : ℕ) :
    Answer → Option Effect
  | .read n =>
    if n ≤ Httpd.bufSize - conn.buf.length ∧ n ≤ (s.input fd).length ∧
        (n = 0 → s.input fd = [] ∨ conn.buf.length = Httpd.bufSize) then
      if 0 < n then
        let input := Function.update s.input fd ((s.input fd).drop n)
        let buf := conn.buf ++ (s.input fd).take n
        if Httpd.received buf then
          some ⟨Function.update s.conns c (some { conn with buf := [], writeCur := 0 }), s.next, input,
            [.delete fd aeReadable refused.delete,
              .create fd aeWritable .writeable (.conn c) refused.create], []⟩
        else some ⟨Function.update s.conns c (some { conn with buf := buf }), s.next, input, [], []⟩
      else some (closeConn s refused c fd aeReadable [.closed c])
    else none
  | .readError => some (closeConn s refused c fd aeReadable [.closed c, .freedRead c])
  | _ => none

/-- The bytes that are offered to `write` -/
def Conn.offered (conn : Conn) : List UInt8 := Httpd.response.drop conn.writeCur

def socketWriteable (s : State) (refused : Refused) (c : ℕ) (conn : Conn) (fd : ℕ) :
    Answer → Option Effect
  | .write none => some ⟨s.conns, s.next, s.input, [], [.sent c []]⟩
  | .write (some n) =>
    if n ≤ conn.offered.length then
      let sent := Event.sent c (conn.offered.take n)
      let writeCur := conn.writeCur + n
      if writeCur = Httpd.response.length then
        some ⟨Function.update s.conns c (some { conn with writeCur := writeCur }), s.next, s.input,
          [.delete fd aeWritable refused.delete,
            .create fd aeReadable .readable (.conn c) refused.create], [sent]⟩
      else some (closeConn s refused c fd aeWritable [sent, .closed c])
    else none
  | _ => none

/-- The body of the handler that runs -/
def handle (s : State) (call : Call) (refused : Refused) (answer : Answer) : Option Effect :=
  match call.proc, call.data with
  | some .accept, some .thread => socketAccept s refused answer
  | some .readable, some (.conn c) =>
    match s.conns c with
    | some conn => socketReadable s refused c conn call.fd answer
    | none => some ⟨s.conns, s.next, s.input, [], [.fault]⟩
  | some .writeable, some (.conn c) =>
    match s.conns c with
    | some conn => socketWriteable s refused c conn call.fd answer
    | none => some ⟨s.conns, s.next, s.input, [], [.fault]⟩
  | _, _ => some ⟨s.conns, s.next, s.input, [], [.fault]⟩

/-- The handler that has been called -/
def callOf : List (AeLoop.Event Proc Data) → Option Call
  | [] => none
  | .call _ proc fd data _ :: _ => some ⟨proc, fd, data⟩
  | _ :: es => callOf es

/-- The connections whose registration has failed -/
def failed (es : List (AeLoop.Event Proc Data)) : List Event :=
  es.filterMap fun e => match e with
    | .created _ _ _ (.conn c) false => some (.unregistered c)
    | _ => none

/-- The loop goes on when the handler returns. -/
def step (s : State) : Action → Option (State × List Event)
  | .poll es => (AeLoop.step s.ae (.poll es)).map fun r => ({ s with ae := r.1 }, [])
  | .next =>
    (AeLoop.step s.ae .next).map fun r => ({ s with ae := r.1, running := callOf r.2 }, [])
  | .handle answer refused =>
    match s.running with
    | none => none
    | some call =>
      match handle s call refused answer with
      | none => none
      | some e =>
        (run AeLoop.step s.ae (e.calls ++ [.ret])).map fun r =>
          (⟨r.1, callOf r.2, s.listenfd, e.conns, e.next, e.input⟩, e.events ++ failed r.2)

/-- `aeCreateEventLoop(1024)` -/
def setsize : ℕ := 1024

/-- `thread_main` up to `aeMain`; `opened` are the other descriptors of the process. It is `none` when
the assertion on the result of `aeCreateFileEvent` fails. -/
def threadMain (memory : ℕ → FileEvent Proc Data) (opened : ℕ → Bool) (listenfd : ℕ)
    (refused : Bool) : Option State :=
  let loop := aeCreateEventLoop setsize memory (Function.update opened listenfd true)
  let r := aeCreateFileEvent loop listenfd aeReadable .accept .thread refused
  if r.2 then some ⟨⟨r.1, .idle⟩, none, listenfd, fun _ => none, 0, fun _ => []⟩ else none

end CodeC.HttpdThread
