import CodeC.Hex
import CodeC.Library.Loop
import CodeC.Library.Vector

/-!
# The hexadecimal codings are inverse to each other

Up to lengths of `2 ^ 30` the products of type `int` do not wrap, so the loops of `hex.hpp` run over
the same indices as those of `hex_codec.cpp`.
-/

namespace CodeC.Hex
open Library

lemma wrap32_natCast {n : ℕ} (hn : n < 2 ^ 31) : wrap32 (n : ℤ) = n :=
  wrap32_of_range (by omega) (by exact_mod_cast hn)

lemma store_of_lt {a : List UInt8} {i : ℕ} (hi : i < a.length) (b : UInt8) :
    store a i b = some (a.set i b) := by
  rw [store, if_pos ⟨Int.natCast_nonneg i, Int.ofNat_lt.mpr hi⟩, Int.toNat_natCast]

/-- A write right behind what is done -/
lemma store_append {done rest : List UInt8} {i : ℕ} (hdone : done.length = i)
    (hrest : 0 < rest.length) (b : UInt8) :
    store (done ++ rest) i b = some (done ++ rest.set 0 b) := by
  have hi : i < (done ++ rest).length := by
    rw [List.length_append]
    omega
  rw [store_of_lt hi, List.set_append_right _ _ (Nat.le_of_eq hdone), hdone, Nat.sub_self]

lemma length_resize (dst : List UInt8) (n : ℕ) : (resize dst n).length = n :=
  length_take_append_replicate dst n 0

/-- The last byte becomes NUL. -/
lemma set_drop_last {a : List UInt8} {n : ℕ} (ha : a.length = n + 1) :
    (a.drop n).set 0 0 = [0] := by
  have hlen : (a.drop n).length = 1 := by
    rw [List.length_drop]
    omega
  obtain ⟨x, hx⟩ := List.length_eq_one_iff.mp hlen
  rw [hx]
  rfl

/-- The two digits of a byte -/
def digits (c : UInt8) : List UInt8 := [dec2hex (c >>> 4), dec2hex (c &&& 0xf)]

lemma length_flatMap_digits (bin : List UInt8) : (bin.flatMap digits).length = bin.length * 2 := by
  induction bin with
  | nil => rfl
  | cons c bin ih =>
    rw [List.flatMap_cons, List.length_append, ih, List.length_cons, digits, List.length_cons,
      List.length_singleton]
    omega

/-- The two places behind what is encoded get the digits of the next byte. -/
lemma encodeByte_append {bin done rest : List UInt8} {i : ℕ} {c x y : UInt8}
    (hc : bin[i]? = some c) (hdone : done.length = i * 2) :
    encodeByte bin (done ++ x :: y :: rest) i = some (done ++ digits c ++ rest) := by
  have hnext : (done ++ [dec2hex (c >>> 4)]).length = i * 2 + 1 := by
    rw [List.length_append, hdone, List.length_singleton]
  rw [encodeByte, hc]
  simp only [Option.bind_eq_bind, Option.bind_some]
  rw [store_append hdone (List.length_pos_of_ne_nil (by simp)), Option.bind_some,
    List.set_cons_zero, List.append_cons, store_append hnext (List.length_pos_of_ne_nil (by simp)),
    List.set_cons_zero]
  simp [digits]

/-- The loop over the bytes -/
lemma encode_loop {bin hex : List UInt8} {n : ℕ} (hn : n ≤ bin.length) (hlen : n * 2 ≤ hex.length) :
    (List.range' 0 n).foldlM (encodeByte bin) hex =
      some ((bin.take n).flatMap digits ++ hex.drop (n * 2)) := by
  induction n with
  | zero => rfl
  | succ n ih =>
    have hc : bin[n]? = some bin[n] := List.getElem?_eq_getElem hn
    have hrest : hex.drop (n * 2) =
        hex[n * 2] :: hex[n * 2 + 1] :: hex.drop ((n + 1) * 2) := by
      rw [List.drop_eq_getElem_cons (by omega), List.drop_eq_getElem_cons (by omega), Nat.succ_mul]
    have hdone : ((bin.take n).flatMap digits).length = n * 2 := by
      rw [length_flatMap_digits, List.length_take]
      omega
    rw [List.range'_1_concat, List.foldlM_append, ih (by omega) (by omega), hrest, Nat.zero_add]
    simp only [Option.bind_eq_bind, Option.bind_some, List.foldlM_cons, List.foldlM_nil,
      encodeByte_append hc hdone, List.take_add_one, hc, List.flatMap_append]
    simp

/-- No product wraps: the digits, and a NUL when there is room for it -/
lemma hex_encode_of_room {bin hex : List UInt8} {n : ℕ} (hn : n ≤ bin.length) (hsmall : n < 2 ^ 30)
    (hlen : n * 2 ≤ hex.length) :
    hex_encode bin n hex hex.length =
      some ((bin.take n).flatMap digits ++ (hex.drop (n * 2)).set 0 0) := by
  have htwice : wrap32 ((n : ℤ) * 2) = (n * 2 : ℕ) :=
    wrap32_natCast (show n * 2 < 2 ^ 31 by omega)
  have hnul : wrap32 ((n * 2 : ℕ) + 1 : ℤ) = (n * 2 + 1 : ℕ) :=
    wrap32_natCast (show n * 2 + 1 < 2 ^ 31 by omega)
  have hsize : sizeT (n : ℤ) = n := by
    unfold sizeT
    omega
  have hdone : ((bin.take n).flatMap digits).length = n * 2 := by
    rw [length_flatMap_digits, List.length_take]
    omega
  rw [hex_encode, htwice, hnul, hsize, if_neg (by omega), encode_loop hn hlen]
  simp only [Option.bind_eq_bind, Option.bind_some]
  by_cases hroom : n * 2 < hex.length
  · have hrest : 0 < (hex.drop (n * 2)).length := by
      rw [List.length_drop]
      omega
    rw [if_pos (by omega), store_append hdone hrest]
  · rw [if_neg (by omega), List.drop_of_length_le (Nat.le_of_not_lt hroom)]
    rfl

lemma hexEncode_eq (src dst : List UInt8) (hlen : src.length < 2 ^ 30) :
    hexEncode src dst = some (src.flatMap digits ++ [0]) := by
  have hdst : (resize dst (src.length * 2 + 1)).length = src.length * 2 + 1 := length_resize _ _
  have hsrc := wrap32_natCast (show src.length < 2 ^ 31 by omega)
  have hint := wrap32_natCast (show (resize dst (src.length * 2 + 1)).length < 2 ^ 31 by omega)
  rw [hexEncode]
  simp only [hsrc, hint]
  rw [hex_encode_of_room (Nat.le_refl _) hlen (by omega), List.take_length,
    set_drop_last hdst]

/-- The bytes of the pairs of digits; an odd digit at the end is left out. -/
def pairs : List UInt8 → List UInt8
  | high :: low :: rest => byteOf high low :: pairs rest
  | _ => []

lemma length_pairs (src : List UInt8) : (pairs src).length = src.length / 2 := by
  fun_induction pairs src with
  | case1 high low rest ih =>
    rw [List.length_cons, ih, List.length_cons, List.length_cons]
    omega
  | case2 src h =>
    rcases src with _ | ⟨a, _ | ⟨b, rest⟩⟩
    · rfl
    · simp
    · exact absurd rfl (h a b rest)

lemma pairs_getElem? {src : List UInt8} {k : ℕ} (hk : k < src.length / 2) :
    ∃ high low, src[k * 2]? = some high ∧ src[k * 2 + 1]? = some low ∧
      (pairs src)[k]? = some (byteOf high low) := by
  induction k generalizing src with
  | zero =>
    rcases src with _ | ⟨a, _ | ⟨b, rest⟩⟩
    · cases hk
    · simp at hk
    · exact ⟨a, b, rfl, rfl, rfl⟩
  | succ k ih =>
    rcases src with _ | ⟨a, _ | ⟨b, rest⟩⟩
    · cases hk
    · simp at hk
    · rw [List.length_cons, List.length_cons] at hk
      obtain ⟨high, low, hhigh, hlow, hpair⟩ := ih (show k < rest.length / 2 by omega)
      refine ⟨high, low, ?_, ?_, hpair⟩
      · rw [Nat.succ_mul]
        exact hhigh
      · rw [Nat.succ_mul]
        exact hlow

lemma evens_eq_map (n : ℕ) : evens n = (List.range' 0 (n / 2)).map (· * 2) := by
  rw [evens]
  apply List.ext_getElem
  · simp
  · intro i h₁ h₂
    simp [Nat.mul_comm]

lemma decodeByte_spec {hex bin : List UInt8} {k : ℕ} (hk : k < hex.length / 2)
    (hlen : bin.length = hex.length / 2) (htake : bin.take k = (pairs hex).take k) :
    ∃ bin', decodeByte hex bin (k * 2) = some bin' ∧ bin'.length = bin.length ∧
      bin'.take (k + 1) = (pairs hex).take (k + 1) := by
  obtain ⟨high, low, hhigh, hlow, hpair⟩ := pairs_getElem? hk
  refine ⟨bin.set k (byteOf high low), ?_, List.length_set, ?_⟩
  · have hhalf : k * 2 / 2 = k := by omega
    rw [decodeByte, hhigh, hlow]
    simp only [Option.bind_eq_bind, Option.bind_some]
    rw [hhalf, store_of_lt (by omega)]
  · rw [take_succ_set (by omega), htake, List.take_add_one, hpair]
    rfl

/-- The loop over the pairs of digits -/
lemma decode_loop {hex bin : List UInt8} {n : ℕ} (hn : n / 2 = hex.length / 2)
    (hlen : bin.length = hex.length / 2) :
    (evens n).foldlM (decodeByte hex) bin = some (pairs hex) := by
  have hround : ∀ k a, 0 ≤ k → k < 0 + hex.length / 2 →
      (a.length = hex.length / 2 ∧ a.take k = (pairs hex).take k) →
      ∃ a', decodeByte hex a (k * 2) = some a' ∧
        (a'.length = hex.length / 2 ∧ a'.take (k + 1) = (pairs hex).take (k + 1)) := by
    rintro k a - hk ⟨ha, htake⟩
    obtain ⟨a', h, hlen', htake'⟩ := decodeByte_spec (by omega) ha htake
    exact ⟨a', h, hlen'.trans ha, htake'⟩
  obtain ⟨bin', hfold, hlen', htake⟩ := foldlM_range'_total
    (f := fun a k => decodeByte hex a (k * 2)) hround (s := bin) ⟨hlen, by simp⟩
  rw [evens_eq_map, List.foldlM_map, hn, hfold]
  rw [Nat.zero_add, List.take_of_length_le (Nat.le_of_eq hlen'),
    List.take_of_length_le (Nat.le_of_eq (length_pairs hex))] at htake
  rw [htake]

lemma hexDecode_eq (src dst : List UInt8) (hlen : src.length < 2 ^ 31) :
    hexDecode src dst = some (pairs src) := by
  have hdst : (resize dst (src.length / 2)).length = src.length / 2 := length_resize _ _
  have htwice : wrap32 (((src.length / 2 : ℕ) : ℤ) * 2) = (src.length / 2 * 2 : ℕ) := by
    rw [← wrap32_natCast (show src.length / 2 * 2 < 2 ^ 31 by omega)]
    rfl
  have hbound : wrap32 ((src.length / 2 * 2 : ℕ) + 1 : ℤ) = (src.length / 2 * 2 + 1 : ℕ) := by
    rw [← wrap32_natCast (show src.length / 2 * 2 + 1 < 2 ^ 31 by omega)]
    rfl
  have hsize : sizeT ((src.length / 2 * 2 + 1 : ℕ) : ℤ) = src.length / 2 * 2 + 1 := by
    unfold sizeT
    omega
  rw [hexDecode]
  simp only [hex_decode, hdst]
  rw [wrap32_natCast (show src.length / 2 < 2 ^ 31 by omega), htwice, hbound, hsize]
  exact decode_loop (by omega) hdst

end CodeC.Hex

namespace CodeC.HexCodec
open Hex

lemma hexEncode_eq (src dst : List UInt8) :
    hexEncode src dst = some (src.flatMap digits ++ [0]) := by
  have hdst : (resize dst (src.length * 2 + 1)).length = src.length * 2 + 1 := length_resize _ _
  have hloop := encode_loop (Nat.le_refl src.length)
    (show src.length * 2 ≤ (resize dst (src.length * 2 + 1)).length by omega)
  rw [hexEncode]
  simp only [hloop, List.take_length, Option.bind_eq_bind, Option.bind_some]
  have hlast : 0 < ((resize dst (src.length * 2 + 1)).drop (src.length * 2)).length := by
    rw [List.length_drop]
    omega
  rw [store_append (length_flatMap_digits src) hlast, set_drop_last hdst]

lemma hexDecode_eq (src dst : List UInt8) : hexDecode src dst = some (pairs src) := by
  rw [hexDecode]
  exact decode_loop rfl (length_resize _ _)

end CodeC.HexCodec

namespace CodeC.Hex

/-- `0` to `9` and `A` to `F` -/
def UpperDigit (b : UInt8) : Prop := b ≥ 48 ∧ b ≤ 57 ∨ b ≥ 65 ∧ b ≤ 70

/-- A hexadecimal digit in either case -/
def HexDigit (b : UInt8) : Prop := UpperDigit b ∨ b ≥ 97 ∧ b ≤ 102

/-- The conversion to upper case, as `toupper` does it -/
def toUpper (b : UInt8) : UInt8 := if b ≥ 97 ∧ b ≤ 122 then b - 32 else b

instance (b : UInt8) : Decidable (UpperDigit b) := inferInstanceAs (Decidable (_ ∨ _))
instance (b : UInt8) : Decidable (HexDigit b) := inferInstanceAs (Decidable (_ ∨ _))

/-- What holds of the 256 bytes holds of every byte. -/
lemma forall_byte {P : UInt8 → Prop} (h : ∀ n < 256, P (UInt8.ofNat n)) (b : UInt8) : P b := by
  have hb := h b.toNat b.toNat_lt
  rwa [UInt8.ofNat_toNat] at hb

lemma byteOf_digits (c : UInt8) : byteOf (dec2hex (c >>> 4)) (dec2hex (c &&& 0xf)) = c := by
  apply forall_byte (P := fun c => byteOf (dec2hex (c >>> 4)) (dec2hex (c &&& 0xf)) = c)
  decide +kernel

lemma upperDigit_of_mem_digits (c : UInt8) : ∀ b ∈ digits c, UpperDigit b := by
  apply forall_byte (P := fun c => ∀ b ∈ digits c, UpperDigit b)
  decide +kernel

lemma hex2dec_of_hexDigit (b : UInt8) :
    HexDigit b → (hex2dec b).toNat < 16 ∧ dec2hex (hex2dec b) = toUpper b := by
  apply forall_byte (P := fun b => HexDigit b →
    (hex2dec b).toNat < 16 ∧ dec2hex (hex2dec b) = toUpper b)
  decide +kernel

/-- The digits of a byte put together from two digits are these. -/
lemma digits_byteOf {high low : UInt8} (hhigh : HexDigit high) (hlow : HexDigit low) :
    digits (byteOf high low) = [toUpper high, toUpper low] := by
  have hnibbles : ∀ m < 16, ∀ n < 16, UInt8.ofNat (m <<< 4 ||| n) >>> 4 = UInt8.ofNat m ∧
      UInt8.ofNat (m <<< 4 ||| n) &&& 0xf = UInt8.ofNat n := by decide +kernel
  obtain ⟨hm, hhigh⟩ := hex2dec_of_hexDigit high hhigh
  obtain ⟨hn, hlow⟩ := hex2dec_of_hexDigit low hlow
  obtain ⟨h₁, h₂⟩ := hnibbles _ hm _ hn
  rw [UInt8.ofNat_toNat] at h₁ h₂
  rw [digits, byteOf, h₁, h₂, hhigh, hlow]

lemma pairs_flatMap_digits (v rest : List UInt8) :
    pairs (v.flatMap digits ++ rest) = v ++ pairs rest := by
  induction v with
  | nil => rfl
  | cons c v ih =>
    rw [List.flatMap_cons, List.append_assoc, digits, List.cons_append, List.cons_append,
      List.nil_append, pairs, byteOf_digits, ih, List.cons_append]

lemma flatMap_digits_pairs {h : List UInt8} (heven : h.length % 2 = 0)
    (hdigit : ∀ b ∈ h, HexDigit b) : (pairs h).flatMap digits = h.map toUpper := by
  fun_induction pairs h with
  | case1 high low rest ih =>
    rw [List.length_cons, List.length_cons] at heven
    have hrest := ih (by omega) fun b hb => hdigit b (by simp [hb])
    rw [List.flatMap_cons, hrest, digits_byteOf (hdigit high (by simp)) (hdigit low (by simp))]
    rfl
  | case2 h hno =>
    rcases h with _ | ⟨a, _ | ⟨b, rest⟩⟩
    · rfl
    · simp at heven
    · exact absurd rfl (hno a b rest)

/-- Encoding gives two upper-case digits for every byte and a NUL, and decoding gives the bytes
back. Decoding digits and encoding them gives the digits in upper case. The functions of
`hex_codec.cpp` have the same results on all inputs. -/
theorem hex_roundTrip :
    (∀ v dst : List UInt8, v.length < 2 ^ 30 → ∃ h, hexEncode v dst = some (h ++ [0]) ∧
      h.length = 2 * v.length ∧ (∀ b ∈ h, UpperDigit b) ∧
      ∀ dst', hexDecode (h ++ [0]) dst' = some v ∧ hexDecode h dst' = some v) ∧
    (∀ h dst dst' : List UInt8, h.length < 2 ^ 30 → h.length % 2 = 0 → (∀ b ∈ h, HexDigit b) →
      ∃ v, hexDecode h dst = some v ∧ hexEncode v dst' = some (h.map toUpper ++ [0])) ∧
    (∀ src dst : List UInt8, src.length < 2 ^ 30 → hexEncode src dst = HexCodec.hexEncode src dst ∧
      hexDecode src dst = HexCodec.hexDecode src dst) := by
  refine ⟨fun v dst hlen => ?_, fun h dst dst' hlen heven hdigit => ?_, fun src dst hlen => ?_⟩
  · have hlength : (v.flatMap digits).length = 2 * v.length := by
      rw [length_flatMap_digits, Nat.mul_comm]
    refine ⟨v.flatMap digits, hexEncode_eq v dst hlen, hlength, fun b hb => ?_, fun dst' => ?_⟩
    · obtain ⟨c, -, hb⟩ := List.mem_flatMap.mp hb
      exact upperDigit_of_mem_digits c b hb
    · have hwith := hexDecode_eq (v.flatMap digits ++ [0]) dst' (by
        rw [List.length_append, hlength, List.length_singleton]
        omega)
      have hwithout := hexDecode_eq (v.flatMap digits) dst' (by omega)
      have hpairs := pairs_flatMap_digits v []
      rw [List.append_nil] at hpairs
      rw [hwith, hwithout, pairs_flatMap_digits, hpairs]
      simp [pairs]
  · have hlength := length_pairs h
    refine ⟨pairs h, hexDecode_eq h dst (by omega), ?_⟩
    rw [hexEncode_eq _ dst' (by omega), flatMap_digits_pairs heven hdigit]
  · rw [hexEncode_eq src dst hlen, HexCodec.hexEncode_eq, hexDecode_eq src dst (by omega),
      HexCodec.hexDecode_eq]
    exact ⟨rfl, rfl⟩

theorem hex_roundTrip_ff :
    (∃ h, hexEncode [1, 255] [] = some (h ++ [0]) ∧ h.length = 4 ∧
      hexDecode (h ++ [0]) [] = some [1, 255]) ∧
    (∃ v, hexDecode [102, 70] [] = some v ∧ hexEncode v [] = some [70, 70, 0]) ∧
    hexDecode [120, 49, 48] [] = HexCodec.hexDecode [120, 49, 48] [] := by
  obtain ⟨hencode, hdecode, hsame⟩ := hex_roundTrip
  obtain ⟨h, heq, hlen, -, hback⟩ := hencode [1, 255] [] (by decide)
  have hdigits : ∀ b ∈ ([102, 70] : List UInt8), HexDigit b := by
    intro b hb
    rcases List.mem_pair.mp hb with rfl | rfl
    · decide
    · decide
  exact ⟨⟨h, heq, hlen, (hback []).1⟩, hdecode [102, 70] [] [] (by decide) (by decide) hdigits,
    (hsame [120, 49, 48] [] (by decide)).2⟩

end CodeC.Hex
