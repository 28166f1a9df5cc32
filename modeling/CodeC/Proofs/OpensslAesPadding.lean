import CodeC.OpensslAes
import Mathlib.Data.Fintype.EquivFin
import Mathlib.Data.Fintype.Vector

/-!
# The padding of `aes_encrypt` and `aes_decrypt`

`aes_encrypt` adds between one and sixteen bytes, each of which is their number. `aes_decrypt` takes
off as many bytes as the last byte says and looks at no other one.
-/

namespace CodeC.OpensslAes

variable {K : Type}

/-- On whole blocks the two modes keep the length, and decryption inverts encryption. -/
structure Openssl.Inverse (o : Openssl K) (encKey decKey : K) : Prop where
  length_encrypt : ∀ iv data, iv.length = blockSize → data.length % blockSize = 0 →
    (o.cbcEncrypt encKey iv data).length = data.length
  length_decrypt : ∀ iv data, iv.length = blockSize → data.length % blockSize = 0 →
    (o.cbcDecrypt decKey iv data).length = data.length
  decrypt_encrypt : ∀ iv data, iv.length = blockSize → data.length % blockSize = 0 →
    o.cbcDecrypt decKey iv (o.cbcEncrypt encKey iv data) = data

/-- Every key of 16 bytes can be set, and then decryption inverts encryption. -/
def Openssl.Inverts (o : Openssl K) : Prop :=
  ∀ key, key.length = blockSize → ∃ encKey decKey, o.setEncryptKey key = some encKey ∧
    o.setDecryptKey key = some decKey ∧ o.Inverse encKey decKey

section inverse

variable {o : Openssl K} {encKey decKey : K} (ho : o.Inverse encKey decKey)
include ho

/-- There are only finitely many inputs of one length, so encryption inverts decryption too. -/
lemma Openssl.Inverse.encrypt_decrypt {iv data : List UInt8} (hiv : iv.length = blockSize)
    (hdata : data.length % blockSize = 0) :
    o.cbcEncrypt encKey iv (o.cbcDecrypt decKey iv data) = data := by
  have : Finite UInt8 := Finite.of_injective UInt8.toFin fun _ _ h => UInt8.toFin_inj.mp h
  have : Fintype UInt8 := Fintype.ofFinite UInt8
  let f : List.Vector UInt8 data.length → List.Vector UInt8 data.length := fun p =>
    ⟨o.cbcEncrypt encKey iv p.1, by rw [ho.length_encrypt iv p.1 hiv (by rw [p.2, hdata]), p.2]⟩
  have hinj : Function.Injective f := by
    intro p q hpq
    have hcipher : o.cbcEncrypt encKey iv p.1 = o.cbcEncrypt encKey iv q.1 := congrArg Subtype.val hpq
    have hplain := congrArg (o.cbcDecrypt decKey iv) hcipher
    rw [ho.decrypt_encrypt iv p.1 hiv (by rw [p.2, hdata]),
      ho.decrypt_encrypt iv q.1 hiv (by rw [q.2, hdata])] at hplain
    exact Subtype.ext hplain
  obtain ⟨p, hp⟩ := Finite.surjective_of_injective hinj ⟨data, rfl⟩
  have hcipher : o.cbcEncrypt encKey iv p.1 = data := congrArg Subtype.val hp
  rw [← hcipher, ho.decrypt_encrypt iv p.1 hiv (by rw [p.2, hdata])]

end inverse

lemma xmemcpy_of_le {dst src : List UInt8} (h : src.length ≤ dst.length) :
    xmemcpy dst src = some (src ++ dst.drop src.length) := if_pos h

lemma padBlock_of_le {a : List UInt8} (h : a.length ≤ blockSize) :
    ∃ b, padBlock a = some b ∧ b.length = blockSize := by
  have hle : a.length ≤ (List.replicate blockSize (0 : UInt8)).length := by
    rwa [List.length_replicate]
  refine ⟨_, xmemcpy_of_le hle, ?_⟩
  rw [List.length_append, List.length_drop, List.length_replicate]
  omega

lemma toNat_padLen (n : ℕ) : (padLen n).toNat = 16 - n % 16 := by
  rw [padLen, UInt8.toNat_ofNat']
  unfold blockSize
  omega

/-- The message with its padding -/
def padded (msg : List UInt8) : List UInt8 :=
  msg ++ List.replicate (padLen msg.length).toNat (padLen msg.length)

lemma length_padded (msg : List UInt8) : (padded msg).length = msg.length / 16 * 16 + 16 := by
  rw [padded, List.length_append, List.length_replicate, toNat_padLen]
  omega

lemma length_padded_mod (msg : List UInt8) : (padded msg).length % blockSize = 0 := by
  rw [length_padded]
  unfold blockSize
  omega

lemma getElem?_padded_last (msg : List UInt8) :
    (padded msg)[(padded msg).length - 1]? = some (padLen msg.length) := by
  have hpos : 0 < (padLen msg.length).toNat := by
    rw [toNat_padLen]
    omega
  rw [padded, List.length_append, List.length_replicate,
    List.getElem?_append_right (by omega), List.getElem?_replicate, if_pos (by omega)]

variable {o : Openssl K} {key iv key' iv' : List UInt8} {encKey decKey : K}

lemma aesEncrypt_eq (hkey : padBlock key = some key') (hiv : padBlock iv = some iv')
    (hset : o.setEncryptKey key' = some encKey) (ho : o.Inverse encKey decKey)
    (hlen : key.length ≤ blockSize) (hiv' : iv'.length = blockSize) {msg out : List UInt8}
    (hint : (padded msg).length ≤ 2147483647) (hout : (padded msg).length ≤ out.length) :
    aesEncrypt o (some msg) (some out) (some key) iv = some ⟨(padded msg).length,
      some (o.cbcEncrypt encKey iv' (padded msg) ++ out.drop (padded msg).length)⟩ := by
  have hsum : (padded msg).length = msg.length + (padLen msg.length).toNat := by
    rw [padded, List.length_append, List.length_replicate]
  have hcipher := ho.length_encrypt iv' (padded msg) hiv' (length_padded_mod msg)
  unfold aesEncrypt
  simp only [hkey, hiv, hset, Option.bind_eq_bind, Option.bind_some]
  rw [if_neg (Nat.not_lt.mpr hlen), ← hsum, if_neg (Nat.not_lt.mpr hint), ← padded,
    xmemcpy_of_le (by rw [hcipher]; exact hout), hcipher]
  rfl

lemma aesDecrypt_eq (hkey : padBlock key = some key') (hiv : padBlock iv = some iv')
    (hset : o.setDecryptKey key' = some decKey) (ho : o.Inverse encKey decKey)
    (hlen : key.length ≤ blockSize) (hiv' : iv'.length = blockSize) {data out : List UInt8}
    (hmod : data.length % blockSize = 0) (hout : data.length ≤ out.length) {last : UInt8}
    (hlast : (o.cbcDecrypt decKey iv' data)[data.length - 1]? = some last) :
    aesDecrypt o (some data) (some out) (some key) iv = some ⟨data.length - last.toNat,
      some (o.cbcDecrypt decKey iv' data ++ out.drop data.length)⟩ := by
  have hplain := ho.length_decrypt iv' data hiv' hmod
  have hpos : data.length - 1 < data.length := by
    rw [← hplain]
    have := (List.getElem?_eq_some_iff.mp hlast).1
    omega
  unfold aesDecrypt
  simp only [hkey, hiv, hset, Option.bind_eq_bind, Option.bind_some]
  rw [if_neg (by omega), xmemcpy_of_le (by rw [hplain]; exact hout), Option.bind_some,
    if_neg (by omega), List.getElem?_append_left (by omega), hlast, hplain]
  rfl

/-- A cipher that adds the bytes of the key and of the iv to those of each block -/
def addKeyIv : Openssl (List UInt8) where
  setEncryptKey := some
  setDecryptKey := some
  cbcEncrypt key iv data := data.mapIdx fun k x => x + (key.getD (k % 16) 0 + iv.getD (k % 16) 0)
  cbcDecrypt key iv data := data.mapIdx fun k x => x - (key.getD (k % 16) 0 + iv.getD (k % 16) 0)

lemma addKeyIv_inverts : addKeyIv.Inverts := by
  intro key _
  refine ⟨key, key, rfl, rfl, fun _ _ _ _ => List.length_mapIdx, fun _ _ _ _ => List.length_mapIdx, ?_⟩
  intro iv data _ _
  apply List.ext_getElem? fun k => ?_
  simp [addKeyIv, Function.comp_def]

/-- `aes_encrypt` returns the least multiple of 16 above the length of the message, and
`aes_decrypt` gives the message back. -/
theorem aes_roundTrip (o : Openssl K) (ho : o.Inverts) (msg key iv encOut decOut : List UInt8)
    (hmsg : msg.length ≤ 2 ^ 31 - 17) (hkey : key.length ≤ 16) (hiv : iv.length ≤ 16)
    (henc : msg.length / 16 * 16 + 16 ≤ encOut.length)
    (hdec : msg.length / 16 * 16 + 16 ≤ decOut.length) :
    ∃ (n : ℕ) (enc dec : List UInt8),
      aesEncrypt o (some msg) (some encOut) (some key) iv = some ⟨n, some enc⟩ ∧
      (n % 16 = 0 ∧ msg.length < n ∧ ∀ k, k % 16 = 0 → msg.length < k → n ≤ k) ∧
      aesDecrypt o (some (enc.take n)) (some decOut) (some key) iv =
        some ⟨msg.length, some dec⟩ ∧ msg <+: dec := by
  obtain ⟨key', hkey', hkeyLen⟩ := padBlock_of_le hkey
  obtain ⟨iv', hiv', hivLen⟩ := padBlock_of_le hiv
  obtain ⟨encKey, decKey, hset, hset', ho⟩ := ho key' hkeyLen
  have hpad := length_padded msg
  have hmod := length_padded_mod msg
  have hlen := ho.length_encrypt iv' (padded msg) hivLen hmod
  have hint : (padded msg).length ≤ 2147483647 := by omega
  have hroom : (padded msg).length ≤ encOut.length := by omega
  have hencrypt := aesEncrypt_eq hkey' hiv' hset ho hkey hivLen hint hroom
  have hdecrypt := ho.decrypt_encrypt iv' (padded msg) hivLen hmod
  have hlast : (o.cbcDecrypt decKey iv' (o.cbcEncrypt encKey iv' (padded msg)))[
      (o.cbcEncrypt encKey iv' (padded msg)).length - 1]? = some (padLen msg.length) := by
    rw [hdecrypt, hlen]
    exact getElem?_padded_last msg
  have hsum : (padded msg).length = msg.length + (padLen msg.length).toNat := by
    rw [padded, List.length_append, List.length_replicate]
  refine ⟨(padded msg).length, _, padded msg ++ decOut.drop (padded msg).length, hencrypt,
    ⟨by omega, by omega, fun k hk hlt => by omega⟩, ?_, ?_⟩
  · rw [List.take_left' hlen, aesDecrypt_eq hkey' hiv' hset' ho hkey hivLen (hlen ▸ hmod)
      (show _ ≤ decOut.length by omega) hlast, hdecrypt, hlen, hsum]
    congr 2
    omega
  · exact (List.prefix_append msg _).trans (List.prefix_append _ _)

/-- What `addKeyIv` makes of `1, 2, 3` and its padding under the key `9` and the iv `5` -/
def encryptedThree : List UInt8 := [15, 2, 3] ++ List.replicate 13 13

theorem aes_roundTrip_three :
    ∃ dec : List UInt8,
      aesEncrypt addKeyIv (some [1, 2, 3]) (some (List.replicate 16 0)) (some [9]) [5] =
        some ⟨16, some encryptedThree⟩ ∧
      aesDecrypt addKeyIv (some encryptedThree) (some (List.replicate 20 0)) (some [9]) [5] =
        some ⟨3, some dec⟩ ∧ [1, 2, 3] <+: dec := by
  have hrun : aesEncrypt addKeyIv (some [1, 2, 3]) (some (List.replicate 16 0)) (some [9]) [5] =
      some ⟨16, some encryptedThree⟩ := by decide
  obtain ⟨n, enc, dec, henc, -, hdec, hmsg⟩ := aes_roundTrip addKeyIv addKeyIv_inverts [1, 2, 3]
    [9] [5] (List.replicate 16 0) (List.replicate 20 0) (by decide) (by decide) (by decide)
    (by decide) (by decide)
  obtain ⟨hn, henc'⟩ := Result.mk.inj (Option.some.inj (hrun.symm.trans henc))
  obtain rfl : 16 = n := by exact_mod_cast hn
  obtain rfl := Option.some.inj henc'
  exact ⟨dec, hrun, hdec, hmsg⟩

/-- What `AES_cbc_encrypt` makes of the input of `aes_decrypt` -/
def plaintext (o : Openssl K) (key iv data : List UInt8) : Option (List UInt8) := do
  let key ← padBlock key
  let iv ← padBlock iv
  let decKey ← o.setDecryptKey key
  return o.cbcDecrypt decKey iv data

/-- The last byte counts bytes of padding, all equal to it; or it counts all bytes. -/
def WellPadded (p : List UInt8) : Prop :=
  1 ≤ (p.getLastD 0).toNat ∧ (p.getLastD 0).toNat ≤ p.length ∧
    ((p.getLastD 0).toNat = p.length ∨ (p.getLastD 0).toNat ≤ 16 ∧
      ∀ x ∈ p.drop (p.length - (p.getLastD 0).toNat), x = p.getLastD 0)

/-- The padding that `aes_encrypt` adds to a shortened text is the one that was taken off. -/
lemma padded_take_iff {p : List UInt8} {last : UInt8} (hmod : p.length % 16 = 0)
    (hpos : 1 ≤ last.toNat) (hlt : last.toNat < p.length) :
    padded (p.take (p.length - last.toNat)) = p ↔
      last.toNat ≤ 16 ∧ ∀ x ∈ p.drop (p.length - last.toNat), x = last := by
  have htake : (p.take (p.length - last.toNat)).length = p.length - last.toNat := by
    rw [List.length_take]
    omega
  have hpad := toNat_padLen (p.length - last.toNat)
  constructor
  · intro h
    have hlen := length_padded (p.take (p.length - last.toNat))
    rw [h, htake] at hlen
    have heq : padLen (p.length - last.toNat) = last := by
      apply UInt8.toNat_inj.mp
      omega
    refine ⟨by omega, fun x hx => ?_⟩
    rw [padded, htake, heq] at h
    have hdrop : p.drop (p.length - last.toNat) = List.replicate last.toNat last :=
      List.append_cancel_left ((List.take_append_drop _ p).trans h.symm)
    rw [hdrop] at hx
    exact List.eq_of_mem_replicate hx
  · rintro ⟨hle, hall⟩
    have heq : padLen (p.length - last.toNat) = last := by
      apply UInt8.toNat_inj.mp
      omega
    have hdrop : p.drop (p.length - last.toNat) = List.replicate last.toNat last := by
      rw [List.eq_replicate_iff]
      exact ⟨by rw [List.length_drop]; omega, hall⟩
    rw [padded, htake, heq, ← hdrop, List.take_append_drop]

/-- A well padded text is what `aes_encrypt` makes of its message, unless there is no message. -/
lemma wellPadded_iff {p : List UInt8} (hmod : p.length % 16 = 0) :
    WellPadded p ↔ 1 ≤ (p.getLastD 0).toNat ∧ (p.getLastD 0).toNat ≤ p.length ∧
      ((p.getLastD 0).toNat < p.length →
        padded (p.take (p.length - (p.getLastD 0).toNat)) = p) := by
  unfold WellPadded
  constructor
  · rintro ⟨hpos, hle, hpad⟩
    refine ⟨hpos, hle, fun hlt => ?_⟩
    exact (padded_take_iff hmod hpos hlt).mpr (hpad.resolve_left (Nat.ne_of_lt hlt))
  · rintro ⟨hpos, hle, hpad⟩
    refine ⟨hpos, hle, ?_⟩
    rcases Nat.lt_or_eq_of_le hle with hlt | heq
    · exact .inr ((padded_take_iff hmod hpos hlt).mp (hpad hlt))
    · exact .inl heq

lemma getElem?_last {p : List UInt8} (hne : p ≠ []) : p[p.length - 1]? = some (p.getLastD 0) := by
  rw [← List.getLast?_eq_getElem?, List.getLastD_eq_getLast?,
    List.getLast?_eq_getLast_of_ne_nil hne, Option.getD_some]

/-- Encrypting a message gives the input again exactly when its padded form is the plaintext. -/
lemma reencrypts_iff (hkey : padBlock key = some key') (hiv : padBlock iv = some iv')
    (hset : o.setEncryptKey key' = some encKey) (ho : o.Inverse encKey decKey)
    (hlen : key.length ≤ blockSize) (hiv' : iv'.length = blockSize) {data out : List UInt8}
    (hmod : data.length % blockSize = 0) (hint : data.length ≤ 2147483647)
    (hout : data.length ≤ out.length) (msg : List UInt8) (hmsg : msg.length < data.length) :
    (∃ enc, aesEncrypt o (some msg) (some out) (some key) iv = some ⟨data.length, some enc⟩ ∧
      enc.take data.length = data) ↔ padded msg = o.cbcDecrypt decKey iv' data := by
  have hpad := length_padded msg
  have hle : (padded msg).length ≤ data.length := by
    unfold blockSize at hmod
    omega
  have hcipher := ho.length_encrypt iv' (padded msg) hiv' (length_padded_mod msg)
  rw [aesEncrypt_eq hkey hiv hset ho hlen hiv' (Nat.le_trans hle hint) (Nat.le_trans hle hout)]
  constructor
  · rintro ⟨enc, heq, htake⟩
    obtain ⟨hvalue, henc⟩ := Result.mk.inj (Option.some.inj heq)
    rw [← Option.some.inj henc, ← Int.ofNat_inj.mp hvalue, List.take_left' hcipher] at htake
    rw [← htake, ho.decrypt_encrypt iv' _ hiv' (length_padded_mod msg)]
  · intro hplain
    have hsame : (padded msg).length = data.length := by
      rw [hplain, ho.length_decrypt iv' data hiv' hmod]
    have hback := ho.encrypt_decrypt hiv' hmod
    rw [← hplain] at hback
    rw [hback, hsame]
    exact ⟨_, rfl, List.take_left⟩

/-- The length that `aes_decrypt` returns is at least 0 and below that of the input, and encrypting
a non-empty result gives the input again, exactly when the plaintext is well padded. -/
theorem aesDecrypt_reencrypts_iff (o : Openssl K) (ho : o.Inverts)
    (data key iv decOut encOut : List UInt8) (hdata : 16 ≤ data.length)
    (hmod : data.length % 16 = 0) (hint : data.length < 2 ^ 31) (hkey : key.length ≤ 16)
    (hiv : iv.length ≤ 16) (hdec : data.length ≤ decOut.length)
    (henc : data.length ≤ encOut.length) :
    ∃ p, plaintext o key iv data = some p ∧
      ((∃ (m : ℤ) (dec : List UInt8),
        aesDecrypt o (some data) (some decOut) (some key) iv = some ⟨m, some dec⟩ ∧
        0 ≤ m ∧ m < data.length ∧
        (0 < m → ∃ enc, aesEncrypt o (some (dec.take m.toNat)) (some encOut) (some key) iv =
          some ⟨data.length, some enc⟩ ∧ enc.take data.length = data)) ↔ WellPadded p) := by
  obtain ⟨key', hkey', hkeyLen⟩ := padBlock_of_le hkey
  obtain ⟨iv', hiv', hivLen⟩ := padBlock_of_le hiv
  obtain ⟨encKey, decKey, hset, hset', ho⟩ := ho key' hkeyLen
  have hlen := ho.length_decrypt iv' data hivLen hmod
  refine ⟨o.cbcDecrypt decKey iv' data, ?_, ?_⟩
  · simp only [plaintext, hkey', hiv', hset', Option.bind_eq_bind, Option.bind_some, pure]
  have hne : o.cbcDecrypt decKey iv' data ≠ [] := by
    intro hnil
    rw [hnil, List.length_nil] at hlen
    omega
  have hlast := getElem?_last hne
  rw [hlen] at hlast
  have hreencrypt := reencrypts_iff hkey' hiv' hset ho hkey hivLen hmod
    (show data.length ≤ 2147483647 by omega) henc
  rw [aesDecrypt_eq hkey' hiv' hset' ho hkey hivLen hmod hdec hlast,
    wellPadded_iff (by rw [hlen]; exact hmod)]
  generalize o.cbcDecrypt decKey iv' data = p at *
  generalize p.getLastD 0 = last
  -- the first bytes of the output are those of the plaintext
  have hmsg : ∀ rest : List UInt8, 1 ≤ last.toNat → last.toNat ≤ p.length →
      ((∃ enc, aesEncrypt o (some ((p ++ rest).take ((data.length : ℤ) - last.toNat).toNat))
          (some encOut) (some key) iv = some ⟨data.length, some enc⟩ ∧
        enc.take data.length = data) ↔ padded (p.take (p.length - last.toNat)) = p) := by
    intro rest hpos hle
    have htoNat : ((data.length : ℤ) - last.toNat).toNat = p.length - last.toNat := by omega
    rw [htoNat, List.take_append_of_le_length (Nat.sub_le _ _)]
    apply hreencrypt
    rw [List.length_take]
    omega
  constructor
  · rintro ⟨m, dec, heq, hm, hlt, hcopy⟩
    obtain ⟨rfl, hdec⟩ := Result.mk.inj (Option.some.inj heq)
    obtain rfl := Option.some.inj hdec
    refine ⟨by omega, by omega, fun hlt => ?_⟩
    exact (hmsg _ (by omega) (by omega)).mp (hcopy (by omega))
  · rintro ⟨hpos, hle, hpad⟩
    refine ⟨_, _, rfl, by omega, by omega, fun hm => ?_⟩
    exact (hmsg _ hpos hle).mpr (hpad (by omega))

theorem aesDecrypt_reencrypts_iff_three :
    ∃ (m : ℤ) (dec : List UInt8),
      aesDecrypt addKeyIv (some encryptedThree) (some (List.replicate 16 0)) (some [9]) [5] =
        some ⟨m, some dec⟩ ∧ 0 ≤ m ∧ m < 16 := by
  obtain ⟨p, hp, hiff⟩ := aesDecrypt_reencrypts_iff addKeyIv addKeyIv_inverts encryptedThree
    [9] [5] (List.replicate 16 0) (List.replicate 16 0) (by decide) (by decide) (by decide)
    (by decide) (by decide) (by decide) (by decide)
  have hplain : plaintext addKeyIv [9] [5] encryptedThree = some (padded [1, 2, 3]) := by decide
  obtain rfl : padded [1, 2, 3] = p := Option.some.inj (hplain.symm.trans hp)
  have hpadded : WellPadded (padded [1, 2, 3]) := by
    refine ⟨by decide, by decide, .inr ⟨by decide, ?_⟩⟩
    exact fun x hx => List.eq_of_mem_replicate hx
  obtain ⟨m, dec, hdec, hm, hlt, -⟩ := hiff.mpr hpadded
  exact ⟨m, dec, hdec, hm, hlt⟩

/-- A plaintext that ends in 0 is returned whole. One that ends in 2 loses two bytes whatever the
other one was, and encrypting the rest gives another text. -/
theorem aesDecrypt_accepts_malformed :
    addKeyIv.Inverts ∧
    aesDecrypt addKeyIv (some (14 :: List.replicate 15 0)) (some (List.replicate 16 7)) (some [9])
      [5] = some ⟨16, some (List.replicate 16 0)⟩ ∧
    aesDecrypt addKeyIv (some (14 :: List.replicate 14 0 ++ [2])) (some (List.replicate 16 7))
      (some [9]) [5] = some ⟨14, some (List.replicate 15 0 ++ [2])⟩ ∧
    aesEncrypt addKeyIv (some (List.replicate 14 0)) (some (List.replicate 16 7)) (some [9]) [5] =
      some ⟨16, some (14 :: List.replicate 13 0 ++ [2, 2])⟩ :=
  ⟨addKeyIv_inverts, by decide, by decide, by decide⟩

end CodeC.OpensslAes
