import CodeC.Proofs.CanFrameRoundTrip

/-!
# Hexadecimal data and data length codes

Which texts `hexstring2data` accepts and what it stores, and how the data length codes of CAN FD
round a length up.
-/

namespace CodeC.CanFrame

/-- The bytes that pairs of digits stand for -/
def pairBytes : List UInt8 → List UInt8
  | high :: low :: rest => (asc2nibble high <<< 4 ||| asc2nibble low) :: pairBytes rest
  | _ => []

/-- The text consists of hexadecimal digits. -/
def HexText (arg : List UInt8) : Prop := ∀ c ∈ arg, ¬asc2nibble c > 0x0F

lemma getD_append_self (pre rest : List UInt8) (c : UInt8) {i : ℕ} (hi : pre.length = i) :
    (pre ++ c :: rest).getD i 0 = c := by
  subst hi
  rw [List.getD_eq_getElem?_getD, List.getElem?_append_right (Nat.le_refl _), Nat.sub_self]
  rfl

lemma set_append_self (pre rest : List UInt8) (c d : UInt8) {i : ℕ} (hi : pre.length = i) :
    (pre ++ c :: rest).set i d = pre ++ d :: rest := by
  subst hi
  rw [List.set_append_right _ _ (Nat.le_refl _), Nat.sub_self]
  rfl

/-- A round of the loop -/
lemma hexPairs_round (k : ℕ) {pre rest xs ys : List UInt8} {high low y : UInt8}
    (hpre : pre.length = 2 * xs.length) :
    hexPairs (pre ++ high :: low :: rest) (k + 1) xs.length (xs ++ y :: ys) =
      if asc2nibble high > 0x0F then (xs ++ y :: ys, 1)
      else if asc2nibble low > 0x0F then (xs ++ (asc2nibble high <<< 4) :: ys, 1)
      else hexPairs (pre ++ high :: low :: rest) k (xs.length + 1)
        (xs ++ (asc2nibble high <<< 4 ||| asc2nibble low) :: ys) := by
  have hhigh : (pre ++ high :: low :: rest).getD (2 * xs.length) 0 = high :=
    getD_append_self pre (low :: rest) high hpre
  have hlow : (pre ++ high :: low :: rest).getD (2 * xs.length + 1) 0 = low := by
    rw [← List.singleton_append, ← List.append_assoc]
    exact getD_append_self (pre ++ [high]) rest low (by rw [List.length_append, hpre]; rfl)
  rw [hexPairs]
  dsimp only
  rw [hhigh, hlow, set_append_self xs ys y _ rfl, getD_append_self xs ys _ rfl,
    set_append_self xs ys _ _ rfl]

lemma hexText_cons {c : UInt8} {rest : List UInt8} :
    HexText (c :: rest) ↔ ¬asc2nibble c > 0x0F ∧ HexText rest := List.forall_mem_cons

/-- The loop over `k` pairs, with `pre` read and `xs` stored before -/
lemma hexPairs_eq (k : ℕ) (pre rest xs ys : List UInt8) (hpre : pre.length = 2 * xs.length)
    (hrest : rest.length = 2 * k) (hys : k ≤ ys.length) :
    (HexText rest → hexPairs (pre ++ rest) k xs.length (xs ++ ys) =
      (xs ++ pairBytes rest ++ ys.drop k, 0)) ∧
    (¬HexText rest → ∃ zs, zs.length = k ∧ hexPairs (pre ++ rest) k xs.length (xs ++ ys) =
      (xs ++ zs ++ ys.drop k, 1)) := by
  induction k generalizing pre rest xs ys with
  | zero =>
    obtain rfl := List.length_eq_zero_iff.mp hrest
    constructor
    · intro _
      rw [hexPairs, pairBytes, List.append_nil, List.drop_zero]
      simp
    · intro hbad
      exact absurd (List.forall_mem_nil _) hbad
  | succ k ih =>
    rcases rest with _ | ⟨high, _ | ⟨low, rest⟩⟩
    · rw [List.length_nil] at hrest
      omega
    · rw [List.length_singleton] at hrest
      omega
    obtain ⟨y, ys, rfl⟩ := List.exists_cons_of_length_pos (show 0 < ys.length by omega)
    rw [List.length_cons, List.length_cons] at hrest
    rw [List.length_cons] at hys
    have hnext := ih (pre ++ [high, low]) rest (xs ++ [asc2nibble high <<< 4 ||| asc2nibble low]) ys
      (by simp only [List.length_append, List.length_cons, List.length_nil]; omega) (by omega) (by omega)
    simp only [List.append_assoc, List.cons_append, List.nil_append, List.length_append,
      List.length_cons, List.length_nil, Nat.zero_add] at hnext
    simp only [hexPairs_round k hpre, hexText_cons, List.drop_succ_cons, pairBytes, List.append_assoc,
      List.cons_append]
    have htake : ∀ v, v :: ys = (v :: ys.take k) ++ ys.drop k := by
      intro v
      rw [List.cons_append, List.take_append_drop]
    have hlength : (ys.take k).length = k := List.length_take_of_le (by omega)
    by_cases hhigh : asc2nibble high > 0x0F
    · -- the byte keeps its old value
      rw [if_pos hhigh]
      refine ⟨fun hhex => absurd hhigh hhex.1, fun _ => ⟨y :: ys.take k, ?_, ?_⟩⟩
      · rw [List.length_cons, hlength]
      · rw [htake y]
    · rw [if_neg hhigh]
      by_cases hlow : asc2nibble low > 0x0F
      · -- only the upper half of the byte is stored
        rw [if_pos hlow]
        refine ⟨fun hhex => absurd hlow hhex.2.1, fun _ =>
          ⟨(asc2nibble high <<< 4) :: ys.take k, ?_, ?_⟩⟩
        · rw [List.length_cons, hlength]
        · rw [htake]
      · rw [if_neg hlow]
        constructor
        · intro hhex
          exact hnext.1 hhex.2.2
        · intro hbad
          obtain ⟨zs, hzs, heq⟩ := hnext.2 fun hhex => hbad ⟨hhigh, hlow, hhex⟩
          refine ⟨(asc2nibble high <<< 4 ||| asc2nibble low) :: zs, ?_, heq⟩
          rw [List.length_cons, hzs]

/-- The texts `hexstring2data` accepts -/
def HexArgument (arg : List UInt8) (maxdlen : ℕ) : Prop :=
  arg.length ≠ 0 ∧ arg.length % 2 = 0 ∧ arg.length ≤ maxdlen * 2 ∧ HexText arg

lemma length_pairBytes {arg : List UInt8} {k : ℕ} (h : arg.length = 2 * k) :
    (pairBytes arg).length = k := by
  induction k generalizing arg with
  | zero =>
    obtain rfl := List.length_eq_zero_iff.mp h
    rfl
  | succ k ih =>
    rcases arg with _ | ⟨high, _ | ⟨low, rest⟩⟩
    · rw [List.length_nil] at h
      omega
    · rw [List.length_singleton] at h
      omega
    · simp only [List.length_cons] at h
      rw [pairBytes, List.length_cons, ih (by omega)]

/-- What the digits of some bytes stand for -/
lemma pairBytes_putHexByte (bs : List UInt8) :
    HexText (bs.flatMap putHexByte) ∧ pairBytes (bs.flatMap putHexByte) = bs := by
  induction bs with
  | nil => exact ⟨List.forall_mem_nil _, rfl⟩
  | cons b bs ih =>
    obtain ⟨hhigh, hlow⟩ := nibble_lt b
    have hdigit : ∀ m < 16, ¬asc2nibble (hexAscUpper m) > 0x0F := by decide
    rw [List.flatMap_cons]
    constructor
    · exact hexText_cons.mpr ⟨hdigit _ hhigh, hexText_cons.mpr ⟨hdigit _ hlow, ih.1⟩⟩
    · change (asc2nibble _ <<< 4 ||| asc2nibble _) :: pairBytes (bs.flatMap putHexByte) = b :: bs
      rw [ih.2, asc2nibble_hexAscUpper _ hhigh, asc2nibble_hexAscUpper _ hlow, byte_of_nibbles]

lemma length_flatMap_putHexByte (bs : List UInt8) :
    (bs.flatMap putHexByte).length = 2 * bs.length := by
  induction bs with
  | nil => rfl
  | cons b bs ih =>
    rw [List.flatMap_cons, List.length_append, ih, List.length_cons]
    change 2 + 2 * bs.length = _
    omega

/-- The stored bytes, the zeros behind them and what is not touched -/
lemma stored_shape {data zs : List UInt8} {maxdlen : ℕ} (hdata : maxdlen ≤ data.length)
    (hzs : zs.length ≤ maxdlen) :
    (zs ++ List.replicate (maxdlen - zs.length) 0 ++ data.drop maxdlen).length = data.length ∧
      (zs ++ List.replicate (maxdlen - zs.length) 0 ++ data.drop maxdlen).drop maxdlen =
        data.drop maxdlen := by
  have hlength : (zs ++ List.replicate (maxdlen - zs.length) 0).length = maxdlen := by
    rw [List.length_append, List.length_replicate]
    omega
  constructor
  · rw [List.length_append, hlength, List.length_drop]
    omega
  · exact List.drop_left' hlength

lemma hexstring2data_spec (arg : List UInt8) {data : List UInt8} {maxdlen : ℕ}
    (hdata : maxdlen ≤ data.length) :
    (HexArgument arg maxdlen → hexstring2data arg data maxdlen =
      (pairBytes arg ++ List.replicate (maxdlen - arg.length / 2) 0 ++ data.drop maxdlen, 0)) ∧
    (¬HexArgument arg maxdlen → ∃ stored, hexstring2data arg data maxdlen = (stored, 1) ∧
      stored.length = data.length ∧ stored.drop maxdlen = data.drop maxdlen) := by
  unfold hexstring2data HexArgument
  dsimp only
  by_cases hshape : arg.length = 0 ∨ arg.length % 2 ≠ 0 ∨ arg.length > maxdlen * 2
  · rw [if_pos hshape]
    constructor
    · intro h
      omega
    · intro _
      exact ⟨data, rfl, rfl, rfl⟩
  · rw [if_neg hshape]
    have hpairs : arg.length = 2 * (arg.length / 2) := by omega
    have hle : arg.length / 2 ≤ maxdlen := by omega
    obtain ⟨hok, hbad⟩ := hexPairs_eq (arg.length / 2) [] arg []
      (List.replicate maxdlen 0 ++ data.drop maxdlen) rfl hpairs (by
        rw [List.length_append, List.length_replicate]
        omega)
    rw [List.drop_append_of_le_length (by rw [List.length_replicate]; exact hle),
      List.drop_replicate] at hok hbad
    simp only [List.nil_append, List.length_nil, ← List.append_assoc] at hok hbad
    constructor
    · intro h
      exact hok h.2.2.2
    · intro h
      obtain ⟨zs, hzs, heq⟩ := hbad fun hhex => h ⟨by omega, by omega, by omega, hhex⟩
      refine ⟨_, heq, ?_⟩
      rw [← hzs]
      exact stored_shape hdata (by omega)

/-- The digits of some bytes are read back. -/
lemma hexstring2data_putHexByte {bs data : List UInt8} {maxdlen : ℕ} (hdata : maxdlen ≤ data.length)
    (hne : bs ≠ []) (hlen : bs.length ≤ maxdlen) :
    hexstring2data (bs.flatMap putHexByte) data maxdlen =
      (bs ++ List.replicate (maxdlen - bs.length) 0 ++ data.drop maxdlen, 0) := by
  have hlength := length_flatMap_putHexByte bs
  have hpos : 0 < bs.length := List.length_pos_iff.mpr hne
  obtain ⟨hhex, hbytes⟩ := pairBytes_putHexByte bs
  rw [(hexstring2data_spec (bs.flatMap putHexByte) hdata).1
    ⟨by omega, by omega, by omega, hhex⟩, hbytes, hlength, Nat.mul_div_cancel_left _ (by omega)]

/-- `hexstring2data` returns 0 exactly for the texts of one to `maxdlen` pairs of hexadecimal digits, and
then has stored their bytes and zeros behind them, so that the digits of any such bytes are read back.
Whatever it returns, it stores nothing from `maxdlen` on. -/
theorem hexstring_data_is_stored (arg data : List UInt8) (maxdlen : ℕ)
    (hdata : maxdlen ≤ data.length) :
    ((hexstring2data arg data maxdlen).2 = 0 ↔ HexArgument arg maxdlen) ∧
      (HexArgument arg maxdlen → (hexstring2data arg data maxdlen).1 =
        pairBytes arg ++ List.replicate (maxdlen - arg.length / 2) 0 ++ data.drop maxdlen) ∧
      ((hexstring2data arg data maxdlen).1.length = data.length ∧
        (hexstring2data arg data maxdlen).1.drop maxdlen = data.drop maxdlen) ∧
      ∀ bs : List UInt8, bs ≠ [] → bs.length ≤ maxdlen →
        hexstring2data (bs.flatMap putHexByte) data maxdlen =
          (bs ++ List.replicate (maxdlen - bs.length) 0 ++ data.drop maxdlen, 0) := by
  obtain ⟨hok, hbad⟩ := hexstring2data_spec arg hdata
  have hround : ∀ bs : List UInt8, bs ≠ [] → bs.length ≤ maxdlen →
      hexstring2data (bs.flatMap putHexByte) data maxdlen =
        (bs ++ List.replicate (maxdlen - bs.length) 0 ++ data.drop maxdlen, 0) :=
    fun _ hne hlen => hexstring2data_putHexByte hdata hne hlen
  by_cases haccepted : HexArgument arg maxdlen
  · have hlength : (pairBytes arg).length = arg.length / 2 := by
      have heven := haccepted.2.1
      exact length_pairBytes (by omega)
    have hle : (pairBytes arg).length ≤ maxdlen := by
      have hmax := haccepted.2.2.1
      omega
    rw [hok haccepted]
    refine ⟨⟨fun _ => haccepted, fun _ => rfl⟩, fun _ => rfl, ?_, hround⟩
    rw [← hlength]
    exact stored_shape hdata hle
  · obtain ⟨stored, heq, hshape⟩ := hbad haccepted
    rw [heq]
    exact ⟨⟨fun h => absurd h one_ne_zero, fun h => absurd h haccepted⟩,
      fun h => absurd h haccepted, hshape, hround⟩

theorem hexstring_data_is_stored_two_bytes :
    hexstring2data [49, 50, 65, 98] [255, 255, 255, 255] 3 = ([0x12, 0xAB, 0, 255], 0) ∧
    ((hexstring2data [49, 50, 65, 98] [255, 255, 255, 255] 3).2 = 0 ↔ HexArgument [49, 50, 65, 98] 3) :=
  ⟨by decide, (hexstring_data_is_stored [49, 50, 65, 98] [255, 255, 255, 255] 3 (by decide)).1⟩

end CodeC.CanFrame
