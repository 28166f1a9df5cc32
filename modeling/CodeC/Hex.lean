import CodeC.Library.LockWord
import Mathlib.Data.List.Basic

/-!
# Hexadecimal coding: `util/hex.hpp` and `20190421_hex_codec/hex_codec.cpp`

The functions of `hex.hpp` compute the bounds of their loops from lengths of type `int`, those of
`hex_codec.cpp` from the sizes of the vectors. A `char` is the byte it is stored in. An access
outside an array ends the computation with `none`.
-/

namespace CodeC.Hex
open Library

/-- `a[i] = b` -/
def store (a : List UInt8) (i : ℤ) (b : UInt8) : Option (List UInt8) :=
  if 0 ≤ i ∧ i < a.length then some (a.set i.toNat b) else none

/-- `dst->resize(n)` -/
def resize (dst : List UInt8) (n : ℕ) : List UInt8 :=
  dst.take n ++ List.replicate (n - dst.length) 0

/-- The conversion of an `int` to `size_t` -/
def sizeT (x : ℤ) : ℕ := (x % 18446744073709551616).toNat

/-- The values of `i` in `for (size_t i = 0; i + 1 < n; i += 2)` -/
def evens (n : ℕ) : List ℕ := List.range' 0 (n / 2) 2

/-- `"0123456789ABCDEF"` -/
def dec2hex (i : UInt8) : UInt8 :=
  [48, 49, 50, 51, 52, 53, 54, 55, 56, 57, 65, 66, 67, 68, 69, 70].getD i.toNat 0

/-- 把hex字符转成decimal数字 -/
def hex2dec (low : UInt8) : UInt8 :=
  if low ≥ 48 ∧ low ≤ 57 then low - 48
  else if low ≥ 65 ∧ low ≤ 70 then low - 65 + 10
  else if low ≥ 97 ∧ low ≤ 102 then low - 97 + 10
  else low

/-- `hex2dec(high) << 4 | hex2dec(low)`, computed as an `int` and stored in a byte -/
def byteOf (high low : UInt8) : UInt8 :=
  UInt8.ofNat ((hex2dec high).toNat <<< 4 ||| (hex2dec low).toNat)

/-- The two digits of a byte, stored at `hex[i * 2]` and `hex[i * 2 + 1]` -/
def encodeByte (bin : List UInt8) (hex : List UInt8) (i : ℕ) : Option (List UInt8) := do
  let c ← bin[i]?
  let hex ← store hex ((i * 2 : ℕ) : ℤ) (dec2hex (c >>> 4))
  store hex ((i * 2 + 1 : ℕ) : ℤ) (dec2hex (c &&& 0xf))

/-- The byte of two digits, stored at `bin[i / 2]` -/
def decodeByte (hex : List UInt8) (bin : List UInt8) (i : ℕ) : Option (List UInt8) := do
  let high ← hex[i]?
  let low ← hex[i + 1]?
  store bin ((i / 2 : ℕ) : ℤ) (byteOf high low)

/-! ## `util/hex.hpp` -/

/-- hex编码 -/
def hex_encode (bin : List UInt8) (binLen : ℤ) (hex : List UInt8) (hexLen : ℤ) :
    Option (List UInt8) :=
  if hexLen < wrap32 (binLen * 2) then some hex
  else do
    let hex ← (List.range' 0 (sizeT binLen)).foldlM (encodeByte bin) hex
    if hexLen ≥ wrap32 (wrap32 (binLen * 2) + 1) then store hex (wrap32 (binLen * 2)) 0
    else some hex

/-- hex解码 -/
def hex_decode (hex : List UInt8) (bin : List UInt8) (binLen : ℤ) : Option (List UInt8) :=
  (evens (sizeT (wrap32 (wrap32 (binLen * 2) + 1)))).foldlM (decodeByte hex) bin

/-- 把bin内容编码成hex，并以'\0'结尾。 -/
def hexEncode (src dst : List UInt8) : Option (List UInt8) :=
  let dst := resize dst (src.length * 2 + 1)
  hex_encode src (wrap32 src.length) dst (wrap32 dst.length)

/-- 把hex内容解码成bin。 -/
def hexDecode (src dst : List UInt8) : Option (List UInt8) :=
  let dst := resize dst (src.length / 2)
  hex_decode src dst (wrap32 dst.length)

end CodeC.Hex

/-! ## `20190421_hex_codec/hex_codec.cpp`

Its `dec2hex` and `hex2dec` are those of `hex.hpp`. -/

namespace CodeC.HexCodec
open Hex

/-- 把bin内容编码成hex，并以'\0'结尾。 -/
def hexEncode (src dst : List UInt8) : Option (List UInt8) := do
  let dst := resize dst (src.length * 2 + 1)
  let dst ← (List.range' 0 src.length).foldlM (encodeByte src) dst
  store dst ((src.length * 2 : ℕ) : ℤ) 0

/-- 把hex内容解码成bin。 -/
def hexDecode (src dst : List UInt8) : Option (List UInt8) :=
  let dst := resize dst (src.length / 2)
  (evens src.length).foldlM (decodeByte src) dst

end CodeC.HexCodec
