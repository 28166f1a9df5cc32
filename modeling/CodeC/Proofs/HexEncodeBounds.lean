import CodeC.Proofs.HexRoundTrip

/-!
# `hex_encode` and the length of its output

The guard of `hex_encode` compares `hexLen` with a product of type `int`, the loop runs over
`binLen` as a `size_t`. From `2 ^ 30` on the product is negative, so the guard lets every `hexLen`
pass and the loop stores behind the output.
-/

namespace CodeC.Hex
open Library

lemma store_some {a a' : List UInt8} {i : ℕ} {b : UInt8} (h : store a i b = some a') :
    i < a.length ∧ a'.length = a.length := by
  unfold store at h
  split at h
  · case isTrue hi =>
    rw [← Option.some.inj h, List.length_set]
    exact ⟨Int.ofNat_lt.mp hi.2, rfl⟩
  · case isFalse => exact absurd h (by simp)

lemma encodeByte_some {bin hex hex' : List UInt8} {i : ℕ} (h : encodeByte bin hex i = some hex') :
    i * 2 + 1 < hex.length ∧ hex'.length = hex.length := by
  unfold encodeByte at h
  simp only [Option.bind_eq_bind, Option.bind_eq_some_iff] at h
  obtain ⟨c, -, mid, hhigh, hlow⟩ := h
  have hmid := (store_some hhigh).2
  have hlast := store_some hlow
  rw [hmid] at hlast
  exact hlast

/-- A loop that stays inside the array has room for all digits. -/
lemma encode_loop_some {bin hex hex' : List UInt8} {n : ℕ}
    (h : (List.range' 0 n).foldlM (encodeByte bin) hex = some hex') :
    n * 2 ≤ hex.length ∧ hex'.length = hex.length := by
  induction n generalizing hex' with
  | zero =>
    rw [← Option.some.inj h]
    exact ⟨by omega, rfl⟩
  | succ n ih =>
    rw [List.range'_1_concat, List.foldlM_append, Option.bind_eq_bind,
      Option.bind_eq_some_iff] at h
    obtain ⟨mid, hmid, hlast⟩ := h
    have hlen := (ih hmid).2
    have hbyte := encodeByte_some (show encodeByte bin mid n = some hex' by simpa using hlast)
    omega

/-- The product wraps, the guard passes, and the loop runs over all of `bin`. -/
lemma hex_encode_of_wrap (bin : List UInt8) {hex : List UInt8} {n : ℕ} (hwrap : 2 ^ 30 ≤ n)
    (hint : n < 2 ^ 31) (hlen : hex.length < 2 ^ 31) : hex_encode bin n hex hex.length = none := by
  have hneg : wrap32 ((n : ℤ) * 2) < 0 := by
    rw [wrap32_eq_emod]
    omega
  have hsize : sizeT (n : ℤ) = n := by
    unfold sizeT
    omega
  rw [hex_encode, if_neg (by omega), hsize]
  rcases hloop : (List.range' 0 n).foldlM (encodeByte bin) hex with _ | hex'
  · rfl
  · have hroom := (encode_loop_some hloop).1
    omega

lemma hex_encode_of_short {bin hex : List UInt8} {n : ℕ} (hsmall : n < 2 ^ 30)
    (hshort : hex.length < n * 2) : hex_encode bin n hex hex.length = some hex := by
  rw [hex_encode, wrap32_of_range (by omega) (by omega), if_pos (by omega)]

/-- With an output of exactly `hexLen` bytes, `hex_encode` stores nothing outside it, the digits of
all bytes (and a NUL if there is room) if they fit and nothing if they do not, exactly when twice
`binLen` is an `int`. -/
theorem hex_encode_inside_iff (bin : List UInt8) (binLen hexLen : ℤ)
    (hbin : 0 ≤ binLen ∧ binLen < 2 ^ 31) (hhex : 0 ≤ hexLen ∧ hexLen < 2 ^ 31)
    (hread : binLen ≤ bin.length) :
    (∀ hex : List UInt8, hex.length = hexLen →
      ∃ hex', hex_encode bin binLen hex hexLen = some hex' ∧ hex' = if 2 * binLen ≤ hexLen
        then (bin.take binLen.toNat).flatMap digits ++ (hex.drop (2 * binLen).toNat).set 0 0
        else hex) ↔
      binLen < 2 ^ 30 := by
  lift binLen to ℕ using hbin.1 with n
  lift hexLen to ℕ using hhex.1 with m
  rw [Int.toNat_natCast, show (2 * (n : ℤ)).toNat = n * 2 by omega]
  apply Iff.intro
  · intro h
    by_contra hwrap
    have hlen : (List.replicate m (0 : UInt8)).length = m := List.length_replicate
    obtain ⟨hex', hsome, -⟩ := h (List.replicate m 0) (by rw [hlen])
    have hnone := hex_encode_of_wrap bin (show 2 ^ 30 ≤ n by omega) (by omega)
      (show (List.replicate m (0 : UInt8)).length < 2 ^ 31 by omega)
    rw [hlen, hsome] at hnone
    exact absurd hnone (by simp)
  · intro hsmall hex hlen
    rw [Int.ofNat_inj] at hlen
    subst hlen
    by_cases hroom : n * 2 ≤ hex.length
    · rw [if_pos (by omega)]
      exact ⟨_, hex_encode_of_room (by omega) (by omega) hroom, rfl⟩
    · rw [if_neg (by omega)]
      exact ⟨hex, hex_encode_of_short (by omega) (by omega), rfl⟩

theorem hex_encode_inside_one :
    ∃ hex', hex_encode [0xab] 1 [1, 2, 3] 3 = some hex' ∧ hex' = [65, 66, 0] :=
  (hex_encode_inside_iff [0xab] 1 3 (by decide) (by decide) (by decide)).mpr (by decide) [1, 2, 3]
    rfl

/-- With `binLen = 2 ^ 30` and no room at all the first digit is stored outside the output. -/
theorem hex_encode_outside :
    hex_encode (List.replicate (2 ^ 30) 0) (2 ^ 30) [] 0 = none :=
  hex_encode_of_wrap (List.replicate (2 ^ 30) 0) (Nat.le_refl (2 ^ 30)) (by norm_num)
    (show ([] : List UInt8).length < 2 ^ 31 by norm_num)

end CodeC.Hex
