import CodeC.CanFrame
import CodeC.Library.CBuffer

/-!
# The long texts of CAN frames: `20230210-cansocket/lib.c`

A frame is printed to columns for a reader, and an error frame is described in words. The texts are
built in a buffer of fixed size, with whatever is in it before; a store behind its end ends the
computation with `none`.
-/

namespace CodeC.CanFrame
open Library.CBuffer

/-- The characters of a literal -/
def bytes (s : String) : List UInt8 := s.toList.map fun c => UInt8.ofNat c.toNat

/-- `%d` for a value that is not negative -/
def decimal (n : ℕ) : List UInt8 := (Nat.toDigits 10 n).map fun c => UInt8.ofNat c.toNat

/-- `%#x` for a value that is not zero -/
def hexadecimal (n : ℕ) : List UInt8 :=
  bytes "0x" ++ (Nat.toDigits 16 n).map fun c => UInt8.ofNat c.toNat

/-- `%*s` -/
def padLeft (width : ℕ) (xs : List UInt8) : List UInt8 :=
  List.replicate (width - xs.length) 32 ++ xs

/-- `CL_LONGCFSZ` -/
def clLongcfsz : ℕ := 2 * 12 + 11 + 64 * 10

def canlibViewAscii : BitVec 32 := 0x1#32

def canlibViewBinary : BitVec 32 := 0x2#32

def canlibViewSwap : BitVec 32 := 0x4#32

def canlibViewError : BitVec 32 := 0x8#32

def canlibViewIndentSff : BitVec 32 := 0x10#32

/-- `SWAP_DELIMITER`, the grave accent -/
def swapDelimiter : UInt8 := 96

/-- The identifier, and the offset of the length -/
def storeId (buf : List UInt8) (id view : BitVec 32) : Option (List UInt8 × ℕ) :=
  if hasFlag id canErrFlag then
    (write buf 0 (putId 8 (id &&& (canErrMask ||| canErrFlag)))).map fun buf => (buf, 10)
  else if hasFlag id canEffFlag then
    (write buf 0 (putId 8 (id &&& canEffMask))).map fun buf => (buf, 10)
  else if hasFlag view canlibViewIndentSff then
    (write buf 5 (putId 3 (id &&& canSffMask))).map fun buf => (buf, 10)
  else (write buf 0 (putId 3 (id &&& canSffMask))).map fun buf => (buf, 5)

/-- The length in brackets, with one digit for CAN 2.0 and two for CAN FD -/
def storeLength (buf : List UInt8) (offset len maxdlen : ℕ) : Option (List UInt8) :=
  if maxdlen = canMaxDlen then do
    let buf ← write buf (offset + 1) [91]
    let buf ← write buf (offset + 2) [UInt8.ofNat (len + 48)]
    write buf (offset + 3) [93]
  else do
    let buf ← write buf offset [91]
    let buf ← write buf (offset + 1) [UInt8.ofNat (len / 10 + 48)]
    let buf ← write buf (offset + 2) [UInt8.ofNat (len % 10 + 48)]
    write buf (offset + 3) [93]

def binaryDigits (b : UInt8) : List UInt8 :=
  [7, 6, 5, 4, 3, 2, 1, 0].map fun j => if b.toNat.testBit j then 49 else 48

/-- The digits of a byte; a column is one character wider. -/
def digits (view : BitVec 32) (b : UInt8) : List UInt8 :=
  if hasFlag view canlibViewBinary then binaryDigits b else putHexByte b

def dlen (view : BitVec 32) : ℕ := if hasFlag view canlibViewBinary then 9 else 3

/-- The bytes in the order in which they are printed -/
def inOrder (view : BitVec 32) (data : List UInt8) : List UInt8 :=
  if hasFlag view canlibViewSwap then data.reverse else data

/-- The character in front of every byte but the first -/
def delimiter (view : BitVec 32) : UInt8 :=
  if hasFlag view canlibViewSwap then swapDelimiter else 32

/-- The loop over the bytes: `lead` goes in front of the next one. -/
def storeData (view : BitVec 32) : List UInt8 → UInt8 → List UInt8 → ℕ → Option (List UInt8 × ℕ)
  | [], _, buf, offset => some (buf, offset)
  | b :: bs, lead, buf, offset => do
    let buf ← write buf offset [lead]
    let buf ← write buf (offset + 1) (digits view b)
    storeData view bs (delimiter view) buf (offset + 1 + (digits view b).length)

def printable (b : UInt8) : UInt8 := if b > 0x1F ∧ b < 0x7F then b else 46

def storeAscii : List UInt8 → List UInt8 → ℕ → Option (List UInt8 × ℕ)
  | [], buf, offset => some (buf, offset)
  | b :: bs, buf, offset => do
    let buf ← write buf offset [printable b]
    storeAscii bs buf (offset + 1)

/-- The quote around the characters -/
def quote (view : BitVec 32) : List UInt8 := if hasFlag view canlibViewSwap then [96] else [39]

/-- What is put at a fixed column behind at most eight bytes -/
def storeTail (buf : List UInt8) (offset : ℕ) (id view : BitVec 32) (data : List UInt8) :
    Option (List UInt8) :=
  if hasFlag id canErrFlag then
    sprintf 0 buf offset (padLeft (dlen view * (8 - data.length) + 13) (bytes "ERRORFRAME"))
  else if hasFlag view canlibViewAscii then do
    let j := dlen view * (8 - data.length) + 4
    let buf ← sprintf 0 buf offset (padLeft j (quote view))
    let s ← storeAscii (inOrder view data) buf (offset + j)
    sprintf 0 s.1 s.2 (quote view)
  else some buf

/-- The data with what is behind it -/
def storeBody (buf : List UInt8) (offset : ℕ) (id view : BitVec 32) (data : List UInt8) :
    Option (List UInt8) := do
  let s ← storeData view (inOrder view data) 32 buf offset
  let buf ← write s.1 s.2 [0]
  if data.length > canMaxDlen then some buf else storeTail buf s.2 id view data

/-- The bytes that are printed, `len` many -/
def shown (cf : CanfdFrame) (maxdlen : ℕ) : List UInt8 :=
  cf.data.toList.take (if cf.len.toNat > maxdlen then maxdlen else cf.len.toNat)

/-- The buffer after `sprint_long_canframe`. `maxdlen` is at most the size of the data. -/
def sprintLongCanframe (buf : List UInt8) (cf : CanfdFrame) (view : BitVec 32) (maxdlen : ℕ) :
    Option (List UInt8) := do
  let buf ← write buf 0 (List.replicate 15 32)
  let s ← storeId buf cf.canId view
  let buf ← storeLength s.1 s.2 (shown cf maxdlen).length maxdlen
  if maxdlen = canMaxDlen ∧ hasFlag cf.canId canRtrFlag then
    sprintf 0 buf (s.2 + 5) (bytes " remote request")
  else storeBody buf (s.2 + 5) cf.canId view (shown cf maxdlen)

def errorClasses : List (List UInt8) :=
  [bytes "tx-timeout", bytes "lost-arbitration", bytes "controller-problem",
    bytes "protocol-violation", bytes "transceiver-status", bytes "no-acknowledgement-on-tx",
    bytes "bus-off", bytes "bus-error", bytes "restarted-after-bus-off"]

def controllerProblems : List (List UInt8) :=
  [bytes "rx-overflow", bytes "tx-overflow", bytes "rx-error-warning", bytes "tx-error-warning",
    bytes "rx-error-passive", bytes "tx-error-passive", bytes "back-to-error-active"]

def protocolViolationTypes : List (List UInt8) :=
  [bytes "single-bit-error", bytes "frame-format-error", bytes "bit-stuffing-error",
    bytes "tx-dominant-bit-error", bytes "tx-recessive-bit-error", bytes "bus-overload",
    bytes "active-error", bytes "error-on-tx"]

def protocolViolationLocations : List (List UInt8) :=
  [bytes "unspecified", bytes "unspecified", bytes "id.28-to-id.21", bytes "start-of-frame",
    bytes "bit-srtr", bytes "bit-ide", bytes "id.20-to-id.18", bytes "id.17-to-id.13",
    bytes "crc-sequence", bytes "reserved-bit-0", bytes "data-field", bytes "data-length-code",
    bytes "bit-rtr", bytes "reserved-bit-1", bytes "id.4-to-id.0", bytes "id.12-to-id.5",
    bytes "unspecified", bytes "active-error-flag", bytes "intermission",
    bytes "tolerate-dominant-bits", bytes "unspecified", bytes "unspecified",
    bytes "passive-error-flag", bytes "error-delimiter", bytes "crc-delimiter",
    bytes "acknowledge-slot", bytes "end-of-frame", bytes "acknowledge-delimiter",
    bytes "overload-flag", bytes "unspecified", bytes "unspecified", bytes "unspecified"]

/-- A function that prints to `buf + base`, where it has room for `len` characters: the buffer and
the number of characters it returns -/
def Printer : Type := List UInt8 → ℕ → ℕ → Option (List UInt8 × ℕ)

/-- `snprintf` -/
def printText (xs : List UInt8) : Printer := fun buf base len =>
  (snprintf 0 buf base len xs).map fun buf => (buf, xs.length)

/-- `len - n` in `size_t` -/
def sizeSub (len n : ℕ) : ℕ := (len + UInt64.size - n) % UInt64.size

/-- `n += p(buf + n, len - n)` -/
def advance (base len : ℕ) (s : List UInt8 × ℕ) (p : Printer) : Option (List UInt8 × ℕ) :=
  (p s.1 (base + s.2) (sizeSub len s.2)).map fun r => (r.1, s.2 + r.2)

/-- `n += p(buf + n, len - n)` for each of the printers in turn, from `n = 0` on -/
def inTurn (ps : List Printer) : Printer := fun buf base len => ps.foldlM (advance base len) (buf, 0)

/-- What a loop over `k` bits from `i` on prints: `sep` in front of every item but the first -/
def printItems (sep : Printer) (bit : ℕ → Bool) (item : ℕ → List Printer) : ℕ → ℕ → ℕ → List Printer
  | 0, _, _ => []
  | k + 1, i, count =>
    if bit i then
      (if count ≠ 0 then [sep] else []) ++ item i ++ printItems sep bit item k (i + 1) (count + 1)
    else printItems sep bit item k (i + 1) count

def snprintfErrorData (err : UInt8) (arr : List (List UInt8)) : Printer := fun buf base len =>
  if err = 0 ∨ len = 0 then some (buf, 0)
  else inTurn (printItems (printText (bytes ",")) err.toNat.testBit
    (fun i => [printText (arr.getD i [])]) arr.length 0 0) buf base len

/-- `cf->data[i]` -/
def dataByte (cf : CanfdFrame) (i : ℕ) : UInt8 := cf.data.toList.getD i 0

/-- The texts of the three functions have braces, 123 and 125. -/
def snprintfErrorLostarb (cf : CanfdFrame) : Printer := fun buf base len =>
  if len = 0 then some (buf, 0)
  else printText (123 :: bytes "at bit " ++ decimal (dataByte cf 0).toNat ++ [125]) buf base len

def snprintfErrorCtrl (cf : CanfdFrame) : Printer := fun buf base len =>
  if len = 0 then some (buf, 0)
  else inTurn [printText [123], snprintfErrorData (dataByte cf 1) controllerProblems, printText [125]]
    buf base len

def snprintfErrorProt (cf : CanfdFrame) : Printer := fun buf base len =>
  if len = 0 then some (buf, 0)
  else inTurn ([printText [123, 123], snprintfErrorData (dataByte cf 2) protocolViolationTypes,
      printText [125, 123]] ++
    (if dataByte cf 3 > 0 ∧ (dataByte cf 3).toNat < protocolViolationLocations.length then
      [printText (protocolViolationLocations.getD (dataByte cf 3).toNat [])] else []) ++
    [printText [125, 125]]) buf base len

/-- `CAN_ERR_LOSTARB`, `CAN_ERR_CRTL` and `CAN_ERR_PROT` are the bits 1, 2 and 3. -/
def printClass (cf : CanfdFrame) (i : ℕ) : List Printer :=
  [printText (errorClasses.getD i [])] ++ (if i = 1 then [snprintfErrorLostarb cf] else []) ++
    (if i = 2 then [snprintfErrorCtrl cf] else []) ++ (if i = 3 then [snprintfErrorProt cf] else [])

/-- `error-counter-tx-rx` with the two counters -/
def errorCounters (cf : CanfdFrame) : List UInt8 :=
  bytes "error-counter-tx-rx" ++ 123 :: 123 :: decimal (dataByte cf 6).toNat ++
    125 :: 123 :: decimal (dataByte cf 7).toNat ++ [125, 125]

def errorClass (cf : CanfdFrame) : BitVec 32 := cf.canId &&& canEffMask

/-- The buffer after `snprintf_can_error_frame`, and what it has written to `stderr` -/
def snprintfCanErrorFrame (buf : List UInt8) (len : ℕ) (cf : CanfdFrame)
    (sep : Option (List UInt8)) : Option (List UInt8 × List UInt8) :=
  if hasFlag cf.canId canErrFlag = false then some (buf, [])
  else if (errorClass cf).toNat > 512 then
    some (buf, bytes "Error class " ++ hexadecimal (errorClass cf).toNat ++ bytes " is invalid\n")
  else
    let sep := printText (sep.getD (bytes ","))
    let counters := if dataByte cf 6 ≠ 0 ∨ dataByte cf 7 ≠ 0 then [sep, printText (errorCounters cf)] else []
    (inTurn (printItems sep (errorClass cf).toNat.testBit (printClass cf) errorClasses.length 0 0 ++
      counters) buf 0 len).map fun r => (r.1, [])

structure Output where
  stream : List UInt8
  stderr : List UInt8
  deriving DecidableEq

/-- `buf` is what the local buffer of `CL_LONGCFSZ` bytes holds at first. -/
def fprintLongCanframe (buf : List UInt8) (cf : CanfdFrame) (eol : Option (List UInt8))
    (view : BitVec 32) (maxdlen : ℕ) : Option Output := do
  let buf ← sprintLongCanframe buf cf view maxdlen
  let line ← cString 0 buf
  if hasFlag view canlibViewError ∧ hasFlag cf.canId canErrFlag then
    let r ← snprintfCanErrorFrame buf clLongcfsz cf (some [10, 9])
    let text ← cString 0 r.1
    some ⟨line ++ [10, 9] ++ text ++ eol.getD [], r.2⟩
  else some ⟨line ++ eol.getD [], []⟩

end CodeC.CanFrame
