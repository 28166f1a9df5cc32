import Mathlib.Data.Int.Basic
import Mathlib.Data.List.Basic
import Mathlib.Logic.Function.Basic

/-!
# The datagrams of `service_discover.hpp`

`Send` lays out topic, NUL byte and payload in one datagram. On arrival libuv copies the
datagram to the start of the receiver's `buffer_` and calls `discover_read_cb` with the number
of bytes copied and with the buffer that `discover_buf_alloc` announced.
-/

namespace CodeC.ServiceDiscover

variable {κ : Type}

/-- `sizeof(buffer_)` -/
def bufferSize : ℕ := 1500

/-- `char buffer_[1500]` -/
structure Buffer where
  bytes : List UInt8
  length_eq : bytes.length = bufferSize

/-- `std::copy(src.begin(), src.end(), dst.begin() + pos)`. -/
def copyTo (dst : List UInt8) (pos : ℕ) (src : List UInt8) : List UInt8 :=
  dst.take pos ++ src ++ dst.drop (pos + src.length)

/-- The bytes that `ServiceDiscover::Send` hands to `uv_udp_try_send`. -/
def send (topic buf : List UInt8) : List UInt8 :=
  let b := List.replicate (buf.length + topic.length + 1) 0
  let b := copyTo b 0 topic
  let b := b.set topic.length 0
  copyTo b (topic.length + 1) buf

/-- `ServiceDiscover::Recv` -/
def recv (callbacks : List UInt8 → List κ) (topic : List UInt8) (callback : κ) :
    List UInt8 → List κ :=
  Function.update callbacks topic (callbacks topic ++ [callback])

/-- One call of a registered callback, with the bytes of the `uv_buf_t` it is given. -/
structure Call (κ : Type) where
  callback : κ
  topic : List UInt8
  value : List UInt8
  deriving DecidableEq

/-- `std::string(base)`: the bytes before the first NUL; `none` when there is none to stop at. -/
def cString (bytes : List UInt8) : Option (List UInt8) :=
  if 0 ∈ bytes then some (bytes.takeWhile (· ≠ 0)) else none

/-- `discover_read_cb`. The length of the value is computed from `buf->len`, the size of the
whole buffer, and not from `nread`. -/
def discoverReadCb (callbacks : List UInt8 → List κ) (nread : ℤ) (buf : List UInt8) :
    Option (List (Call κ)) :=
  if nread = 0 then some []
  else if nread < 0 then some []
  else
    match cString buf with
    | none => none
    | some topic =>
      let b := (buf.drop (topic.length + 1)).take (buf.length - topic.length - 1)
      some ((callbacks topic).map fun cb => ⟨cb, topic, b⟩)

/-- The content of `buffer_` after libuv has read a datagram into it. -/
def readInto (buffer : Buffer) (datagram : List UInt8) : List UInt8 :=
  copyTo buffer.bytes 0 (datagram.take bufferSize)

lemma length_readInto (buffer : Buffer) (datagram : List UInt8) :
    (readInto buffer datagram).length = bufferSize := by
  rw [readInto, copyTo, List.take_zero, List.nil_append, Nat.zero_add, List.length_append,
    List.length_drop, buffer.length_eq, List.length_take]
  omega

/-- The buffer after some datagrams -/
def receiveAll (buffer : Buffer) (datagrams : List (List UInt8)) : Buffer :=
  datagrams.foldl (fun b d => ⟨readInto b d, length_readInto b d⟩) buffer

/-- The arrival of a datagram: the buffer is the one of `discover_buf_alloc`. -/
def arrive (callbacks : List UInt8 → List κ) (buffer : Buffer) (datagram : List UInt8) :
    Option (List (Call κ)) :=
  discoverReadCb callbacks (datagram.take bufferSize).length (readInto buffer datagram)

end CodeC.ServiceDiscover
