import Mathlib.Data.List.Basic
import Mathlib.Data.Nat.Notation

/-!
# The texts of CAN frames: `20230210-cansocket/lib.c`

A frame is parsed from and printed to a compact text, `<can_id>#{R{len}|data}` for CAN 2.0 and
`<can_id>##<flags>{data}` for CAN FD. A `char` is the byte it is stored in and a C string the list of
its bytes before the terminating NUL. A read behind the NUL ends the computation with `none`.
-/

namespace CodeC.CanFrame

/-- `struct canfd_frame`, without its reserved bytes -/
structure CanfdFrame where
  canId : BitVec 32
  len : UInt8
  flags : UInt8
  data : Vector UInt8 64
  deriving DecidableEq

def canEffFlag : BitVec 32 := 0x80000000#32

def canRtrFlag : BitVec 32 := 0x40000000#32

def canErrFlag : BitVec 32 := 0x20000000#32

def canSffMask : BitVec 32 := 0x7FF#32

def canEffMask : BitVec 32 := 0x1FFFFFFF#32

def canErrMask : BitVec 32 := 0x1FFFFFFF#32

def canMaxDlc : ℕ := 8

def canMaxDlen : ℕ := 8

def canfdMaxDlen : ℕ := 64

def canMtu : ℕ := 16

def canfdMtu : ℕ := 72

/-- The flag is set in the identifier. -/
def hasFlag (id flag : BitVec 32) : Bool := id &&& flag != 0#32

/-- `CANID_DELIM`, the character `#` -/
def canidDelim : UInt8 := 35

/-- `DATA_SEPERATOR`, the character `.` -/
def dataSeperator : UInt8 := 46

/-- `hex_asc_upper` -/
def hexAscUpper (i : ℕ) : UInt8 :=
  [48, 49, 50, 51, 52, 53, 54, 55, 56, 57, 65, 66, 67, 68, 69, 70].getD i 0

/-- The value of a hexadecimal digit, 16 for any other character -/
def asc2nibble (c : UInt8) : UInt8 :=
  if c ≥ 48 ∧ c ≤ 57 then c - 48
  else if c ≥ 65 ∧ c ≤ 70 then c - 65 + 10
  else if c ≥ 97 ∧ c ≤ 102 then c - 97 + 10
  else 16

/-- `cs[i]` for a C string, whose last byte is the NUL behind its characters -/
def charAt (cs : List UInt8) (i : ℕ) : Option UInt8 := (cs ++ [0])[i]?

/-- `asc2nibble(cs[i])` -/
def nibbleAt (cs : List UInt8) (i : ℕ) : Option UInt8 := (charAt cs i).map asc2nibble

/-- The loop over the pairs of digits. The second component is the value to return. -/
def hexPairs (arg : List UInt8) : ℕ → ℕ → List UInt8 → List UInt8 × ℕ
  | 0, _, data => (data, 0)
  | k + 1, i, data =>
    let tmp := asc2nibble (arg.getD (2 * i) 0)
    if tmp > 0x0F then (data, 1)
    else
      let data := data.set i (tmp <<< 4)
      let tmp := asc2nibble (arg.getD (2 * i + 1) 0)
      if tmp > 0x0F then (data, 1)
      else hexPairs arg k (i + 1) (data.set i (data.getD i 0 ||| tmp))

/-- `data` is the array before the call, of at least `maxdlen` bytes. -/
def hexstring2data (arg data : List UInt8) (maxdlen : ℕ) : List UInt8 × ℕ :=
  let len := arg.length
  if len = 0 ∨ len % 2 ≠ 0 ∨ len > maxdlen * 2 then (data, 1)
  else hexPairs arg (len / 2) 0 (List.replicate maxdlen 0 ++ data.drop maxdlen)

/-- How a part of `parse_canframe` ends: it goes on, or the function returns `0`, with the frame as it
is then. -/
inductive Step (α : Type) where
  | next (a : α)
  | reject (cf : CanfdFrame)

/-- The loop over the digits of an identifier of `digits` digits, `k` of which are left -/
def parseId (cs : List UInt8) (digits : ℕ) : ℕ → CanfdFrame → Option (Step CanfdFrame)
  | 0, cf => some (.next cf)
  | k + 1, cf =>
    match nibbleAt cs (digits - (k + 1)) with
    | none => none
    | some tmp =>
      if tmp > 0x0F then some (.reject cf)
      else parseId cs digits k
        { cf with canId := cf.canId ||| BitVec.ofNat 32 tmp.toNat <<< (k * 4) }

/-- The identifier and the index behind its delimiter -/
def parseHeader (cs : List UInt8) (cf : CanfdFrame) : Option (Step (CanfdFrame × ℕ)) :=
  match charAt cs 3 with
  | none => none
  | some c =>
    if c = canidDelim then
      match parseId cs 3 3 cf with
      | none => none
      | some (.reject cf) => some (.reject cf)
      | some (.next cf) => some (.next (cf, 4))
    else
      match charAt cs 8 with
      | none => none
      | some c =>
        if c = canidDelim then
          match parseId cs 8 8 cf with
          | none => none
          | some (.reject cf) => some (.reject cf)
          | some (.next cf) =>
            if hasFlag cf.canId canErrFlag then some (.next (cf, 9))
            else some (.next ({ cf with canId := cf.canId ||| canEffFlag }, 9))
        else some (.reject cf)

/-- A remote frame, from the index behind its `R` -/
def parseRtr (cs : List UInt8) (cf : CanfdFrame) (idx : ℕ) : Option (ℕ × CanfdFrame) :=
  let cf := { cf with canId := cf.canId ||| canRtrFlag }
  match charAt cs idx with
  | none => none
  | some c =>
    if c ≠ 0 ∧ (asc2nibble c).toNat ≤ canMaxDlc then some (canMtu, { cf with len := asc2nibble c })
    else some (canMtu, cf)

/-- The loop over the data bytes: `k` rounds are left, `dlen` bytes are read. -/
def parseData (cs : List UInt8) : ℕ → ℕ → ℕ → CanfdFrame → Option (Step CanfdFrame)
  | 0, dlen, _, cf => some (.next { cf with len := UInt8.ofNat dlen })
  | k + 1, dlen, idx, cf =>
    match charAt cs idx with
    | none => none
    | some c =>
      let idx := if c = dataSeperator then idx + 1 else idx
      if idx ≥ cs.length then some (.next { cf with len := UInt8.ofNat dlen })
      else
        match nibbleAt cs idx with
        | none => none
        | some high =>
          if high > 0x0F then some (.reject cf)
          else
            let cf := { cf with data := cf.data.setIfInBounds dlen (high <<< 4) }
            match nibbleAt cs (idx + 1) with
            | none => none
            | some low =>
              if low > 0x0F then some (.reject cf)
              else parseData cs k (dlen + 1) (idx + 2)
                { cf with data := cf.data.setIfInBounds dlen (high <<< 4 ||| low) }

/-- The data of a frame and the value to return -/
def parseBody (cs : List UInt8) (cf : CanfdFrame) (idx maxdlen ret : ℕ) :
    Option (ℕ × CanfdFrame) :=
  match parseData cs maxdlen 0 idx cf with
  | none => none
  | some (.reject cf) => some (0, cf)
  | some (.next cf) => some (ret, cf)

/-- The frame after its identifier -/
def parsePayload (cs : List UInt8) (cf : CanfdFrame) (idx : ℕ) : Option (ℕ × CanfdFrame) :=
  match charAt cs idx with
  | none => none
  | some c =>
    if c = 82 ∨ c = 114 then parseRtr cs cf (idx + 1)
    else if c = canidDelim then
      match nibbleAt cs (idx + 1) with
      | none => none
      | some tmp =>
        if tmp > 0x0F then some (0, cf)
        else parseBody cs { cf with flags := tmp } (idx + 2) canfdMaxDlen canfdMtu
    else parseBody cs cf idx canMaxDlen canMtu

def zeroFrame : CanfdFrame := ⟨0#32, 0, 0, Vector.replicate 64 0⟩

/-- `parse_canframe`: the value it returns and the frame it has filled. -/
def parseCanframe (cs : List UInt8) : Option (ℕ × CanfdFrame) :=
  if cs.length < 4 then some (0, zeroFrame)
  else
    match parseHeader cs zeroFrame with
    | none => none
    | some (.reject cf) => some (0, cf)
    | some (.next (cf, idx)) => parsePayload cs cf idx

def putHexByte (byte : UInt8) : List UInt8 :=
  [hexAscUpper ((byte &&& 0xF0) >>> 4).toNat, hexAscUpper (byte &&& 0x0F).toNat]

/-- `_put_id`: the last `digits` hexadecimal digits of the identifier -/
def putId : ℕ → BitVec 32 → List UInt8
  | 0, _ => []
  | k + 1, id => putId k (id >>> 4) ++ [hexAscUpper (id &&& 0x0F#32).toNat]

/-- The identifier with its delimiter -/
def sprintHeader (id : BitVec 32) : List UInt8 :=
  if hasFlag id canErrFlag then putId 8 (id &&& (canErrMask ||| canErrFlag)) ++ [canidDelim]
  else if hasFlag id canEffFlag then putId 8 (id &&& canEffMask) ++ [canidDelim]
  else putId 3 (id &&& canSffMask) ++ [canidDelim]

/-- The data bytes, with separators between them when `sep` -/
def sprintData (sep : Bool) : List UInt8 → List UInt8
  | [] => []
  | [b] => putHexByte b
  | b :: c :: rest => putHexByte b ++ (if sep then [dataSeperator] else []) ++ sprintData sep (c :: rest)

/-- The text that `sprint_canframe` writes, without its NUL -/
def sprintCanframe (cf : CanfdFrame) (sep : Bool) (maxdlen : ℕ) : List UInt8 :=
  let len := if cf.len.toNat > maxdlen then maxdlen else cf.len.toNat
  let data := cf.data.toList.take len
  if maxdlen = canMaxDlen ∧ hasFlag cf.canId canRtrFlag then
    sprintHeader cf.canId ++ [82] ++
      (if cf.len ≠ 0 ∧ cf.len.toNat ≤ canMaxDlc then [hexAscUpper (cf.len &&& 0x0F).toNat] else [])
  else if maxdlen = canfdMaxDlen then
    sprintHeader cf.canId ++ [canidDelim, hexAscUpper (cf.flags &&& 0x0F).toNat] ++
      (if sep ∧ len ≠ 0 then [dataSeperator] else []) ++ sprintData sep data
  else sprintHeader cf.canId ++ sprintData sep data

end CodeC.CanFrame
