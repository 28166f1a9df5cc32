import Mathlib.Data.Int.Notation
import Mathlib.Data.List.Basic

/-!
# AES with PKCS7 padding: `20180508_openssl_aes/test_openssl_aes.cpp`

The functions of OpenSSL are a parameter. A null pointer is `none`; an array that is passed with its
length is a list. A copy beyond the end of an array, an access outside it and a sum that is not an
`int` end the computation with `none`.
-/

namespace CodeC.OpensslAes

/-- `AES_set_encrypt_key` and `AES_set_decrypt_key` for 128 bits, with `none` for an error, and the
bytes that `AES_cbc_encrypt` writes in its two modes, for a key schedule, an iv and an input -/
structure Openssl (K : Type) where
  setEncryptKey : List UInt8 → Option K
  setDecryptKey : List UInt8 → Option K
  cbcEncrypt : K → List UInt8 → List UInt8 → List UInt8
  cbcDecrypt : K → List UInt8 → List UInt8 → List UInt8

/-- `AES_BLOCK_SIZE` -/
def blockSize : ℕ := 16

/-- `xmemcpy(dst, src, n)` for the `n` bytes of `src` -/
def xmemcpy (dst src : List UInt8) : Option (List UInt8) :=
  if src.length ≤ dst.length then some (src ++ dst.drop src.length) else none

/-- padding aes key，保证其长度为默认的16个字节 -/
def padBlock (a : List UInt8) : Option (List UInt8) := xmemcpy (List.replicate blockSize 0) a

/-- The return value and the output array -/
structure Result where
  value : ℤ
  out : Option (List UInt8)
  deriving DecidableEq

variable {K : Type} (o : Openssl K)

/-- `uint8_t pad_len = AES_BLOCK_SIZE - input_len % AES_BLOCK_SIZE` -/
def padLen (inputLen : ℕ) : UInt8 := UInt8.ofNat (blockSize - inputLen % blockSize)

def aesEncrypt (aesInput encOut aesKey : Option (List UInt8)) (aesIv : List UInt8) :
    Option Result :=
  match aesInput, encOut, aesKey with
  | some input, some out, some key =>
    if key.length > blockSize then some ⟨0, encOut⟩
    else do
      let key ← padBlock key
      let iv ← padBlock aesIv
      match o.setEncryptKey key with
      | none => some ⟨0, encOut⟩
      | some encKey =>
        -- PKCS7 Padding
        let pad := padLen input.length
        let inputLenPad := input.length + pad.toNat
        if inputLenPad > 2147483647 then none
        else
          let inputPad := input ++ List.replicate pad.toNat pad
          let out ← xmemcpy out (o.cbcEncrypt encKey iv inputPad)
          return ⟨inputLenPad, some out⟩
  | _, _, _ => some ⟨0, encOut⟩

def aesDecrypt (aesInput decOut aesKey : Option (List UInt8)) (aesIv : List UInt8) :
    Option Result :=
  match aesInput, decOut, aesKey with
  | some input, some out, some key =>
    if key.length > blockSize ∨ input.length % blockSize ≠ 0 then some ⟨0, decOut⟩
    else do
      let key ← padBlock key
      let iv ← padBlock aesIv
      match o.setDecryptKey key with
      | none => some ⟨0, decOut⟩
      | some decKey =>
        let out ← xmemcpy out (o.cbcDecrypt decKey iv input)
        -- PKCS7 Unpadding
        if input.length = 0 then none
        else
          let last ← out[input.length - 1]?
          return ⟨input.length - last.toNat, some out⟩
  | _, _, _ => some ⟨0, decOut⟩

end CodeC.OpensslAes
