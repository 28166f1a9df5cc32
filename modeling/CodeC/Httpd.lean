import CodeC.Library.Run
import Mathlib.Data.Int.Notation
import Mathlib.Data.List.Basic

/-!
# A connection of `chuqq_httpd_nodelay.c`

The event loop calls `socket_readable` or `socket_writeable`, whichever is registered for the
descriptor of the connection. The actions carry what `read` and `write` return.
-/

namespace CodeC.Httpd
open Library

/-- `RESPONSE` without its terminating zero -/
@[irreducible] def response : List UInt8 :=
  [72, 84, 84, 80, 47, 49, 46, 49, 32, 50, 48, 48, 32, 79, 75, 13, 10, 83, 101, 114, 118, 101, 114,
    58, 32, 102, 97, 115, 116, 104, 116, 116, 112, 13, 10, 67, 111, 110, 116, 101, 110, 116, 45, 84,
    121, 112, 101, 58, 32, 116, 101, 120, 116, 47, 112, 108, 97, 105, 110, 59, 32, 99, 104, 97, 114,
    115, 101, 116, 61, 117, 116, 102, 45, 56, 13, 10, 67, 111, 110, 116, 101, 110, 116, 45, 76, 101,
    110, 103, 116, 104, 58, 32, 49, 49, 13, 10, 67, 111, 110, 110, 101, 99, 116, 105, 111, 110, 58,
    32, 107, 101, 101, 112, 45, 97, 108, 105, 118, 101, 13, 10, 13, 10, 104, 101, 108, 108, 111, 32,
    119, 111, 114, 108, 100]

example : response =
    ("HTTP/1.1 200 OK\r\nServer: fasthttp\r\nContent-Type: text/plain; charset=utf-8\r\n" ++
      "Content-Length: 11\r\nConnection: keep-alive\r\n\r\nhello world").toUTF8.data.toList := by
  decide +kernel

lemma length_response : response.length = 133 := by decide +kernel

/-- The event the descriptor is registered for with `aeCreateFileEvent`; `closed` after `close`
and `free`. -/
inductive Mask where
  | readable
  | writable
  | closed
  deriving DecidableEq, Repr

/-- `buf` holds the first `cur` bytes of the buffer. -/
structure Connection where
  buf : List UInt8
  writeCur : ℕ
  mask : Mask
  deriving DecidableEq

def Connection.cur (conn : Connection) : ℕ := conn.buf.length

/-- `sizeof(conn->buf)` -/
def bufSize : ℕ := 1024

/-- The connection with the bytes of the client that have not been read. -/
structure State where
  conn : Connection
  input : List UInt8
  deriving DecidableEq

/-- `readable n` and `readError` call `socket_readable` with the result of `read`, `writeable`
calls `socket_writeable` with the result of `write`, `none` for -1. -/
inductive Action where
  | readable (n : ℕ)
  | readError
  | writeable (n : Option ℕ)
  deriving DecidableEq

inductive Event where
  | sent (bytes : List UInt8)
  deriving DecidableEq

/-- `socket_accept` on a client that sends `input` and then closes its side -/
def start (input : List UInt8) : State := ⟨⟨[], 0, .readable⟩, input⟩

/-- 判断请求接收完整 -/
def received (buf : List UInt8) : Bool :=
  let cur := buf.length
  decide (4 ≤ cur) && buf[cur - 1]? == some 10 && buf[cur - 2]? == some 13 &&
    buf[cur - 3]? == some 10 && buf[cur - 4]? == some 13

/-- `n` is the result of `read`, and `bytes` what it has stored. -/
def socketReadable (conn : Connection) (n : ℤ) (bytes : List UInt8) : Connection :=
  if 0 < n then
    let conn := { conn with buf := conn.buf ++ bytes }
    if received conn.buf then ⟨[], 0, .writable⟩ else conn
  else { conn with mask := .closed }

/-- The bytes `socket_writeable` offers to `write` -/
def Connection.offered (conn : Connection) : List UInt8 := response.drop conn.writeCur

def socketWriteable (conn : Connection) (n : Option ℕ) : Connection :=
  match n with
  | none => conn
  | some n =>
    let conn := { conn with writeCur := conn.writeCur + n }
    if conn.writeCur = response.length then { conn with mask := .readable }
    else { conn with mask := .closed }

/-- `read` returns 0 only at the end of the stream or when no space is offered. -/
def step (s : State) : Action → Option (State × List Event)
  | .readable n =>
    if s.conn.mask = .readable ∧ n ≤ bufSize - s.conn.cur ∧ n ≤ s.input.length ∧
        (n = 0 → s.input = [] ∨ s.conn.cur = bufSize) then
      some (⟨socketReadable s.conn n (s.input.take n), s.input.drop n⟩, [])
    else none
  | .readError =>
    if s.conn.mask = .readable then some ({ s with conn := socketReadable s.conn (-1) [] }, [])
    else none
  | .writeable n =>
    if s.conn.mask = .writable ∧ n.getD 0 ≤ s.conn.offered.length then
      some ({ s with conn := socketWriteable s.conn n },
        [.sent (s.conn.offered.take (n.getD 0))])
    else none

/-- The bytes sent so far, after one more event. -/
def record (bytes : List UInt8) : Event → List UInt8
  | .sent more => bytes ++ more

end CodeC.Httpd
