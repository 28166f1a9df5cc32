import CodeC.Proofs.CanFrameBounds
import CodeC.Proofs.HexRoundTrip
import Mathlib.Data.BitVec

/-!
# Printing and parsing CAN frames

What `parse_canframe` makes of the text that `sprint_canframe` has written, for every frame, and what
holds of every frame that it accepts.
-/

namespace CodeC.CanFrame

/-- The identifier that is printed, with the flag that its number of digits stands for -/
def normalId (id : BitVec 32) : BitVec 32 :=
  if hasFlag id canErrFlag then id &&& (canErrMask ||| canErrFlag)
  else if hasFlag id canEffFlag then (id &&& canEffMask) ||| canEffFlag
  else id &&& canSffMask

/-- The bytes before `len`, and zeros behind them -/
def clip (data : Vector UInt8 64) (len : ℕ) : Vector UInt8 64 :=
  Vector.ofFn fun j => if j.val < len then data[j.val] else 0

/-- What is left of a frame in its text -/
def normal (maxdlen : ℕ) (cf : CanfdFrame) : CanfdFrame :=
  if maxdlen = canMaxDlen ∧ hasFlag cf.canId canRtrFlag then
    ⟨normalId cf.canId ||| canRtrFlag, if cf.len.toNat ≤ canMaxDlc then cf.len else 0, 0,
      Vector.replicate 64 0⟩
  else
    let len := if cf.len.toNat > maxdlen then maxdlen else cf.len.toNat
    ⟨normalId cf.canId, UInt8.ofNat len,
      if maxdlen = canfdMaxDlen then cf.flags &&& 0x0F else 0, clip cf.data len⟩

/-- The value `parse_canframe` returns for a frame of this kind -/
def mtu (maxdlen : ℕ) : ℕ := if maxdlen = canfdMaxDlen then canfdMtu else canMtu

lemma asc2nibble_hexAscUpper : ∀ m < 16, asc2nibble (hexAscUpper m) = UInt8.ofNat m := by decide

lemma not_gt_of_digit : ∀ m < 16, ¬UInt8.ofNat m > 0x0F := by decide

/-- A digit is none of the other characters of a text. -/
lemma hexAscUpper_ne : ∀ m < 16, hexAscUpper m ≠ canidDelim ∧ hexAscUpper m ≠ dataSeperator ∧
    hexAscUpper m ≠ 82 ∧ hexAscUpper m ≠ 114 ∧ hexAscUpper m ≠ 0 := by decide

lemma nibble_lt (b : UInt8) : ((b &&& 0xF0) >>> 4).toNat < 16 ∧ (b &&& 0x0F).toNat < 16 := by
  apply Hex.forall_byte (P := fun b => ((b &&& 0xF0) >>> 4).toNat < 16 ∧ (b &&& 0x0F).toNat < 16)
  decide +kernel

/-- The two digits of a byte give the byte back. -/
lemma byte_of_nibbles (b : UInt8) :
    UInt8.ofNat ((b &&& 0xF0) >>> 4).toNat <<< 4 ||| UInt8.ofNat (b &&& 0x0F).toNat = b := by
  apply Hex.forall_byte (P := fun b =>
    UInt8.ofNat ((b &&& 0xF0) >>> 4).toNat <<< 4 ||| UInt8.ofNat (b &&& 0x0F).toNat = b)
  decide +kernel

lemma idDigit_lt (id : BitVec 32) : (id &&& 0x0F#32).toNat < 16 := by
  have hle : (id &&& 0x0F#32).toNat ≤ 15 := by
    rw [BitVec.toNat_and]
    exact Nat.and_le_right
  omega

/-- The character behind `pre` -/
lemma charAt_append (pre rest : List UInt8) (c : UInt8) {i : ℕ} (hi : pre.length = i) :
    charAt (pre ++ c :: rest) i = some c := by
  subst hi
  rw [charAt, List.append_assoc, List.getElem?_append_right (Nat.le_refl _), Nat.sub_self]
  rfl

/-- A digit behind `pre` -/
lemma nibbleAt_append (pre rest : List UInt8) {m i : ℕ} (hm : m < 16) (hi : pre.length = i) :
    nibbleAt (pre ++ hexAscUpper m :: rest) i = some (UInt8.ofNat m) := by
  rw [nibbleAt, charAt_append pre rest _ hi, Option.map_some, asc2nibble_hexAscUpper m hm]

lemma length_putId (k : ℕ) (id : BitVec 32) : (putId k id).length = k := by
  induction k generalizing id with
  | zero => rfl
  | succ k ih => rw [putId, List.length_append, ih, List.length_singleton]

/-- The digit of weight `16 ^ k` -/
lemma putId_getElem {digits k : ℕ} (hk : k < digits) (id : BitVec 32) :
    (putId digits id)[digits - (k + 1)]? =
      some (hexAscUpper ((id >>> (k * 4)) &&& 0x0F#32).toNat) := by
  induction digits generalizing k id with
  | zero => omega
  | succ d ih =>
    rw [putId]
    cases k with
    | zero =>
      have hidx : d + 1 - (0 + 1) = (putId d (id >>> 4)).length := by
        rw [length_putId]
        omega
      rw [hidx, List.getElem?_concat_length]
      simp
    | succ k =>
      have hidx : d + 1 - (k + 1 + 1) = d - (k + 1) := by omega
      rw [hidx, List.getElem?_append_left (by rw [length_putId]; omega), ih (by omega),
        ← BitVec.shiftRight_add]
      have hshift : 4 + k * 4 = (k + 1) * 4 := by omega
      rw [hshift]

lemma getLsbD_nibble (j : ℕ) : (0x0F#32).getLsbD j = decide (j < 4) := by
  have h : (0x0F#32) = BitVec.ofNat 32 (2 ^ 4 - 1) := rfl
  rw [h, BitVec.getLsbD_ofNat, Nat.testBit_two_pow_sub_one]
  by_cases hj : j < 4
  · simp [hj, show j < 32 by omega]
  · simp [hj]

/-- The digits of weight below `16 ^ k`, put together as the loop of `parse_canframe` does -/
def lowDigits (id : BitVec 32) : ℕ → BitVec 32
  | 0 => 0#32
  | k + 1 => (((id >>> (k * 4)) &&& 0x0F#32) <<< (k * 4)) ||| lowDigits id k

lemma getLsbD_lowDigits (id : BitVec 32) (k i : ℕ) :
    (lowDigits id k).getLsbD i = (decide (i < k * 4) && id.getLsbD i) := by
  induction k with
  | zero => simp [lowDigits]
  | succ k ih =>
    rw [lowDigits, BitVec.getLsbD_or, ih, BitVec.getLsbD_shiftLeft, BitVec.getLsbD_and,
      BitVec.getLsbD_ushiftRight, getLsbD_nibble]
    by_cases hi : i < k * 4
    · simp [hi, show i < (k + 1) * 4 by omega]
    · have hidx : k * 4 + (i - k * 4) = i := by omega
      rw [hidx]
      by_cases hbit : i < 32
      · by_cases hnext : i < (k + 1) * 4
        · simp [hi, hbit, hnext, show i - k * 4 < 4 by omega]
        · simp [hi, hnext, show ¬i - k * 4 < 4 by omega]
      · rw [BitVec.getLsbD_of_ge id i (by omega)]
        simp

lemma lowDigits_eight (id : BitVec 32) : lowDigits id 8 = id := by
  apply BitVec.eq_of_getLsbD_eq
  intro i hi
  rw [getLsbD_lowDigits]
  simp [hi]

lemma lowDigits_three (id : BitVec 32) : lowDigits (id &&& canSffMask) 3 = id &&& canSffMask := by
  apply BitVec.eq_of_getLsbD_eq
  intro i hi
  have hmask : canSffMask = BitVec.ofNat 32 (2 ^ 11 - 1) := rfl
  rw [getLsbD_lowDigits, BitVec.getLsbD_and, hmask, BitVec.getLsbD_ofNat,
    Nat.testBit_two_pow_sub_one]
  by_cases h : i < 11
  · simp [h, show i < 3 * 4 by omega]
  · simp [h]

/-- The loop over the digits reads back what `_put_id` has written. -/
lemma parseId_putId {digits k : ℕ} (hk : k ≤ digits) (id : BitVec 32) (rest : List UInt8)
    (cf : CanfdFrame) :
    parseId (putId digits id ++ rest) digits k cf =
      some (.next { cf with canId := cf.canId ||| lowDigits id k }) := by
  induction k generalizing cf with
  | zero => simp [parseId, lowDigits]
  | succ k ih =>
    have hlt := idDigit_lt (id >>> (k * 4))
    have hnibble : nibbleAt (putId digits id ++ rest) (digits - (k + 1)) =
        some (UInt8.ofNat ((id >>> (k * 4)) &&& 0x0F#32).toNat) := by
      have hidx : digits - (k + 1) < (putId digits id).length := by
        rw [length_putId]
        omega
      rw [nibbleAt, charAt_of_lt (by rw [List.length_append]; omega),
        List.getElem?_append_left hidx, putId_getElem (by omega), Option.map_some,
        asc2nibble_hexAscUpper _ hlt]
    have htoNat : (UInt8.ofNat ((id >>> (k * 4)) &&& 0x0F#32).toNat).toNat =
        ((id >>> (k * 4)) &&& 0x0F#32).toNat :=
      UInt8.toNat_ofNat_of_lt' (by change _ < 256; omega)
    rw [parseId, hnibble]
    simp only [if_neg (not_gt_of_digit _ hlt), htoNat, BitVec.ofNat_toNat, BitVec.setWidth_eq]
    rw [ih (by omega)]
    simp only [lowDigits, BitVec.or_assoc]

lemma hasFlag_and (id mask flag : BitVec 32) :
    hasFlag (id &&& mask) flag = hasFlag id (mask &&& flag) := by
  rw [hasFlag, hasFlag, BitVec.and_assoc]

/-- The header is read back as the identifier that it prints. -/
lemma parseHeader_sprintHeader (id : BitVec 32) (rest : List UInt8) :
    parseHeader (sprintHeader id ++ rest) zeroFrame =
      some (.next ({ zeroFrame with canId := normalId id }, (sprintHeader id).length)) := by
  -- an identifier of eight digits has a digit at index 3 and the delimiter at index 8
  have height : ∀ x : BitVec 32, parseHeader (putId 8 x ++ [canidDelim] ++ rest) zeroFrame =
      some (.next ({ zeroFrame with
        canId := if hasFlag x canErrFlag then x else x ||| canEffFlag }, 9)) := by
    intro x
    have h3 : charAt (putId 8 x ++ [canidDelim] ++ rest) 3 =
        some (hexAscUpper ((x >>> (4 * 4)) &&& 0x0F#32).toNat) := by
      rw [List.append_assoc, charAt_of_lt (by rw [List.length_append, length_putId]; omega),
        List.getElem?_append_left (by rw [length_putId]; omega)]
      exact putId_getElem (show 4 < 8 by omega) x
    have h8 : charAt (putId 8 x ++ [canidDelim] ++ rest) 8 = some canidDelim := by
      rw [List.append_assoc]
      exact charAt_append _ _ _ (length_putId 8 x)
    have hne := (hexAscUpper_ne _ (idDigit_lt (x >>> (4 * 4)))).1
    unfold parseHeader
    simp only [h3, h8, if_neg hne, if_true]
    rw [List.append_assoc, parseId_putId (Nat.le_refl 8), lowDigits_eight]
    have hzero : zeroFrame.canId ||| x = x := BitVec.zero_or
    simp only [hzero]
    by_cases herr : hasFlag x canErrFlag = true
    · simp only [herr, if_true]
    · simp only [herr]
      rfl
  unfold sprintHeader normalId
  by_cases herr : hasFlag id canErrFlag = true
  · rw [if_pos herr, if_pos herr, height]
    have hflag : hasFlag (id &&& (canErrMask ||| canErrFlag)) canErrFlag = true := by
      rw [hasFlag_and]
      exact herr
    rw [if_pos hflag, List.length_append, length_putId]
    rfl
  · rw [if_neg herr, if_neg herr]
    by_cases heff : hasFlag id canEffFlag = true
    · rw [if_pos heff, if_pos heff, height]
      have hflag : ¬hasFlag (id &&& canEffMask) canErrFlag = true := by
        rw [hasFlag_and]
        simp [hasFlag, canEffMask, canErrFlag]
      rw [if_neg hflag, List.length_append, length_putId]
      rfl
    · rw [if_neg heff, if_neg heff]
      have h3 : charAt (putId 3 (id &&& canSffMask) ++ [canidDelim] ++ rest) 3 =
          some canidDelim := by
        rw [List.append_assoc]
        exact charAt_append _ _ _ (length_putId 3 _)
      unfold parseHeader
      simp only [h3, if_true]
      rw [List.append_assoc, parseId_putId (Nat.le_refl 3), lowDigits_three, List.length_append,
        length_putId]
      have hzero : zeroFrame.canId ||| (id &&& canSffMask) = id &&& canSffMask := BitVec.zero_or
      simp only [hzero]
      rfl

lemma sprintData_cons (sep : Bool) (b : UInt8) (rest : List UInt8) :
    sprintData sep (b :: rest) =
      putHexByte b ++ ((if sep ∧ rest ≠ [] then [dataSeperator] else []) ++ sprintData sep rest) := by
  cases rest with
  | nil => simp [sprintData]
  | cons c rest => cases sep <;> simp [sprintData]

/-- The bytes written one after the other from index `dlen` on -/
def fill (data : Vector UInt8 64) : ℕ → List UInt8 → Vector UInt8 64
  | _, [] => data
  | dlen, b :: bytes => fill (data.setIfInBounds dlen b) (dlen + 1) bytes

lemma getElem_fill (data : Vector UInt8 64) (dlen : ℕ) (bytes : List UInt8) {j : ℕ} (hj : j < 64) :
    (fill data dlen bytes)[j] =
      if dlen ≤ j ∧ j < dlen + bytes.length then bytes.getD (j - dlen) 0 else data[j] := by
  induction bytes generalizing data dlen with
  | nil =>
    rw [fill, if_neg]
    rw [List.length_nil]
    omega
  | cons b bytes ih =>
    rw [fill, ih, List.length_cons]
    by_cases hlt : j < dlen
    · rw [if_neg (by omega), if_neg (by omega), Vector.getElem_setIfInBounds_ne hj (by omega)]
    · by_cases heq : j = dlen
      · subst heq
        rw [if_neg (by omega), if_pos (by omega), Nat.sub_self, Vector.getElem_setIfInBounds_self]
        rfl
      · by_cases hin : j < dlen + (bytes.length + 1)
        · rw [if_pos (by omega), if_pos (by omega)]
          have hsub : j - dlen = j - (dlen + 1) + 1 := by omega
          rw [hsub]
          rfl
        · rw [if_neg (by omega), if_neg (by omega), Vector.getElem_setIfInBounds_ne hj (by omega)]

lemma fill_zero_eq_clip {data : Vector UInt8 64} {len : ℕ} (hlen : len ≤ 64) :
    fill zeroFrame.data 0 (data.toList.take len) = clip data len := by
  apply Vector.ext
  intro j hj
  have htake : (data.toList.take len).length = len := by
    rw [List.length_take, Vector.length_toList, Nat.min_eq_left hlen]
  rw [getElem_fill _ _ _ hj, htake, clip, Vector.getElem_ofFn]
  by_cases hlt : j < len
  · rw [if_pos (by omega), if_pos hlt, Nat.sub_zero, List.getD_eq_getElem?_getD,
      List.getElem?_take_of_lt hlt, Vector.getElem?_toList, Vector.getElem?_eq_getElem hj]
    rfl
  · rw [if_neg (by omega), if_neg hlt]
    exact Vector.getElem_replicate hj

/-- The loop over the data reads back what the loop of `sprint_canframe` has written, with or without
separators, to the end of the text. `lead` is a separator before the first byte. -/
lemma parseData_sprintData (sep : Bool) (bytes : List UInt8) (lead : Bool) (pre : List UInt8)
    {k : ℕ} (hk : bytes.length ≤ k) (dlen : ℕ) (cf : CanfdFrame) :
    parseData (pre ++ ((if lead ∧ bytes ≠ [] then [dataSeperator] else []) ++ sprintData sep bytes))
        k dlen pre.length cf =
      some (.next { cf with
        len := UInt8.ofNat (dlen + bytes.length), data := fill cf.data dlen bytes }) := by
  induction bytes generalizing lead pre k dlen cf with
  | nil =>
    cases k with
    | zero => simp [parseData, fill]
    | succ k =>
      have hnul : charAt pre pre.length = some 0 := List.getElem?_concat_length
      have hsep : ¬(0 : UInt8) = dataSeperator := by decide
      simp [parseData, sprintData, hnul, hsep, fill]
  | cons b bytes ih =>
    obtain ⟨k, rfl⟩ : ∃ m, k = m + 1 := ⟨k - 1, by rw [List.length_cons] at hk; omega⟩
    obtain ⟨hhigh, hlow⟩ := nibble_lt b
    -- what stands before the two digits of `b`, and what stands behind them
    generalize hbefore : pre ++ (if lead ∧ b :: bytes ≠ [] then [dataSeperator] else []) = before
    generalize hafter : (if sep ∧ bytes ≠ [] then [dataSeperator] else []) ++ sprintData sep bytes =
      after
    have htext : pre ++ ((if lead ∧ b :: bytes ≠ [] then [dataSeperator] else []) ++
        sprintData sep (b :: bytes)) = before ++ (putHexByte b ++ after) := by
      rw [← List.append_assoc, hbefore, sprintData_cons, hafter]
    have hidx : ∃ c, charAt (before ++ (putHexByte b ++ after)) pre.length = some c ∧
        (if c = dataSeperator then pre.length + 1 else pre.length) = before.length := by
      cases lead with
      | true =>
        have hb : before = pre ++ [dataSeperator] := by simpa using hbefore.symm
        refine ⟨dataSeperator, ?_, ?_⟩
        · rw [hb, List.append_assoc]
          exact charAt_append _ _ _ rfl
        · simp [hb]
      | false =>
        have hb : before = pre := by simpa using hbefore.symm
        refine ⟨hexAscUpper ((b &&& 0xF0) >>> 4).toNat, ?_, ?_⟩
        · rw [hb]
          exact charAt_append _ _ _ rfl
        · rw [if_neg (hexAscUpper_ne _ hhigh).2.1, hb]
    obtain ⟨c, hc, hstart⟩ := hidx
    have hrest : ¬before.length ≥ (before ++ (putHexByte b ++ after)).length := by
      simp [putHexByte]
    have hnibble : nibbleAt (before ++ (putHexByte b ++ after)) before.length =
        some (UInt8.ofNat ((b &&& 0xF0) >>> 4).toNat) :=
      nibbleAt_append before _ hhigh rfl
    have hnibble' : nibbleAt (before ++ (putHexByte b ++ after)) (before.length + 1) =
        some (UInt8.ofNat (b &&& 0x0F).toNat) := by
      have hsplit : before ++ (putHexByte b ++ after) =
          (before ++ [hexAscUpper ((b &&& 0xF0) >>> 4).toNat]) ++
            hexAscUpper (b &&& 0x0F).toNat :: after := by simp [putHexByte]
      rw [hsplit]
      exact nibbleAt_append _ _ hlow (by simp)
    rw [htext]
    simp only [parseData, hc, hstart, if_neg hrest, hnibble, hnibble',
      if_neg (not_gt_of_digit _ hhigh), if_neg (not_gt_of_digit _ hlow), byte_of_nibbles]
    have hnext := ih sep (before ++ putHexByte b) (k := k) (by rw [List.length_cons] at hk; omega)
      (dlen + 1) { cf with data := cf.data.setIfInBounds dlen b }
    rw [hafter, List.append_assoc, List.length_append] at hnext
    have htwo : (putHexByte b).length = 2 := rfl
    rw [htwo] at hnext
    rw [Vector.setIfInBounds_setIfInBounds, hnext]
    simp only [fill, List.length_cons]
    have hsum : dlen + 1 + bytes.length = dlen + (bytes.length + 1) := by omega
    rw [hsum]

lemma four_le_length_sprintHeader (id : BitVec 32) : 4 ≤ (sprintHeader id).length := by
  unfold sprintHeader
  split_ifs <;> simp [length_putId]

lemma parseCanframe_sprintHeader (id : BitVec 32) (rest : List UInt8) :
    parseCanframe (sprintHeader id ++ rest) =
      parsePayload (sprintHeader id ++ rest) { zeroFrame with canId := normalId id }
        (sprintHeader id).length := by
  have hlen := four_le_length_sprintHeader id
  rw [parseCanframe, if_neg (by rw [List.length_append]; omega), parseHeader_sprintHeader]

/-- A remote frame -/
lemma parse_sprint_remote (cf : CanfdFrame) (sep : Bool) (hrtr : hasFlag cf.canId canRtrFlag = true) :
    parseCanframe (sprintCanframe cf sep canMaxDlen) =
      some (canMtu, ⟨normalId cf.canId ||| canRtrFlag,
        if cf.len.toNat ≤ canMaxDlc then cf.len else 0, 0, Vector.replicate 64 0⟩) := by
  have hcond : canMaxDlen = canMaxDlen ∧ hasFlag cf.canId canRtrFlag = true := ⟨rfl, hrtr⟩
  unfold sprintCanframe
  dsimp only
  rw [if_pos hcond, List.append_assoc, parseCanframe_sprintHeader]
  have hR : charAt (sprintHeader cf.canId ++ ([82] ++
      if cf.len ≠ 0 ∧ cf.len.toNat ≤ canMaxDlc then [hexAscUpper (cf.len &&& 0x0F).toNat] else []))
      (sprintHeader cf.canId).length = some 82 := charAt_append _ _ _ rfl
  rw [parsePayload, hR]
  simp only [true_or, if_true]
  unfold parseRtr
  by_cases hprinted : cf.len ≠ 0 ∧ cf.len.toNat ≤ canMaxDlc
  · have hdigit : charAt (sprintHeader cf.canId ++ ([82] ++ [hexAscUpper (cf.len &&& 0x0F).toNat]))
        ((sprintHeader cf.canId).length + 1) = some (hexAscUpper (cf.len &&& 0x0F).toNat) := by
      rw [← List.append_assoc]
      exact charAt_append _ _ _ (by simp)
    have hlow := (nibble_lt cf.len).2
    -- a length of at most 8 is its own last digit
    have hval : UInt8.ofNat (cf.len &&& 0x0F).toNat = cf.len := by
      have hsmall : ∀ b : UInt8, b.toNat ≤ canMaxDlc → UInt8.ofNat (b &&& 0x0F).toNat = b :=
        Hex.forall_byte (P := fun b => b.toNat ≤ canMaxDlc → UInt8.ofNat (b &&& 0x0F).toNat = b)
          (by decide +kernel)
      exact hsmall cf.len hprinted.2
    simp only [if_pos hprinted, hdigit, asc2nibble_hexAscUpper _ hlow, hval]
    rw [if_pos ⟨(hexAscUpper_ne _ hlow).2.2.2.2, hprinted.2⟩, if_pos hprinted.2]
    rfl
  · have hnul : charAt (sprintHeader cf.canId ++ ([82] ++ []))
        ((sprintHeader cf.canId).length + 1) = some 0 := by
      rw [List.append_nil, charAt, List.getElem?_append_right (by simp)]
      simp
    have hlen : (if cf.len.toNat ≤ canMaxDlc then cf.len else 0) = 0 := by
      by_cases hle : cf.len.toNat ≤ canMaxDlc
      · rw [if_pos hle]
        by_contra hne
        exact hprinted ⟨hne, hle⟩
      · rw [if_neg hle]
    simp only [if_neg hprinted, hnul, ne_eq, not_true_eq_false, false_and, if_false, hlen]
    rfl

/-- The data of a frame, read to the end of the text -/
lemma parseBody_sprintData (pre : List UInt8) (sep lead : Bool) (cf : CanfdFrame)
    {len maxdlen : ℕ} (hlen : len ≤ maxdlen) (hmax : maxdlen ≤ 64) (id : BitVec 32) (flags : UInt8)
    (ret : ℕ) :
    parseBody (pre ++ ((if lead ∧ len ≠ 0 then [dataSeperator] else []) ++
        sprintData sep (cf.data.toList.take len)))
        { zeroFrame with canId := id, flags := flags } pre.length maxdlen ret =
      some (ret, ⟨id, UInt8.ofNat len, flags, clip cf.data len⟩) := by
  have htake : (cf.data.toList.take len).length = len := by
    rw [List.length_take, Vector.length_toList, Nat.min_eq_left (by omega)]
  have hlead : (lead = true ∧ len ≠ 0) ↔ (lead = true ∧ cf.data.toList.take len ≠ []) := by
    rw [← List.length_pos_iff_ne_nil, htake, Nat.pos_iff_ne_zero]
  simp only [hlead]
  unfold parseBody
  rw [parseData_sprintData sep _ lead pre (by rw [htake]; exact hlen), htake,
    fill_zero_eq_clip (by omega), Nat.zero_add]

/-- A frame of CAN 2.0 that is no remote frame -/
lemma parse_sprint_classic (cf : CanfdFrame) (sep : Bool)
    (hrtr : ¬hasFlag cf.canId canRtrFlag = true) {len : ℕ}
    (hlen : len = if cf.len.toNat > canMaxDlen then canMaxDlen else cf.len.toNat) :
    parseCanframe (sprintCanframe cf sep canMaxDlen) =
      some (canMtu, ⟨normalId cf.canId, UInt8.ofNat len, 0, clip cf.data len⟩) := by
  have hle : len ≤ canMaxDlen := by
    rw [hlen]
    split_ifs <;> omega
  have hfd : ¬canMaxDlen = canfdMaxDlen := by decide
  unfold sprintCanframe
  dsimp only
  rw [if_neg (fun h => hrtr h.2), if_neg hfd, ← hlen, parseCanframe_sprintHeader]
  have hbody := parseBody_sprintData (sprintHeader cf.canId) sep false cf hle (by decide)
    (normalId cf.canId) 0 canMtu
  simp only [Bool.false_eq_true, false_and, if_false, List.nil_append] at hbody
  -- behind the delimiter stands the first digit of the data or the NUL
  have hfirst : ∃ c, charAt (sprintHeader cf.canId ++ sprintData sep (cf.data.toList.take len))
      (sprintHeader cf.canId).length = some c ∧ ¬(c = 82 ∨ c = 114) ∧ c ≠ canidDelim := by
    cases htext : cf.data.toList.take len with
    | nil =>
      refine ⟨0, ?_, by decide, by decide⟩
      rw [sprintData, List.append_nil]
      exact List.getElem?_concat_length
    | cons b rest =>
      obtain ⟨hdelim, -, hR, hr, -⟩ := hexAscUpper_ne _ (nibble_lt b).1
      refine ⟨hexAscUpper ((b &&& 0xF0) >>> 4).toNat, ?_, not_or.mpr ⟨hR, hr⟩, hdelim⟩
      rw [sprintData_cons]
      exact charAt_append _ _ _ rfl
  obtain ⟨c, hc, hR, hdelim⟩ := hfirst
  rw [parsePayload, hc]
  simp only [if_neg hR, if_neg hdelim]
  exact hbody

/-- A frame of CAN FD -/
lemma parse_sprint_fd (cf : CanfdFrame) (sep : Bool) {len : ℕ}
    (hlen : len = if cf.len.toNat > canfdMaxDlen then canfdMaxDlen else cf.len.toNat) :
    parseCanframe (sprintCanframe cf sep canfdMaxDlen) =
      some (canfdMtu, ⟨normalId cf.canId, UInt8.ofNat len, cf.flags &&& 0x0F, clip cf.data len⟩) := by
  have hle : len ≤ canfdMaxDlen := by
    rw [hlen]
    split_ifs <;> omega
  have hcan : ¬canfdMaxDlen = canMaxDlen := by decide
  have hlow := (nibble_lt cf.flags).2
  unfold sprintCanframe
  simp only [hcan, false_and, if_false, if_true, ← hlen]
  rw [List.append_assoc, List.append_assoc, parseCanframe_sprintHeader]
  generalize htail : (if sep ∧ len ≠ 0 then [dataSeperator] else []) ++
    sprintData sep (cf.data.toList.take len) = tail
  have hdelim : charAt (sprintHeader cf.canId ++
      ([canidDelim, hexAscUpper (cf.flags &&& 0x0F).toNat] ++ tail))
      (sprintHeader cf.canId).length = some canidDelim := charAt_append _ _ _ rfl
  have hflags : nibbleAt (sprintHeader cf.canId ++
      ([canidDelim, hexAscUpper (cf.flags &&& 0x0F).toNat] ++ tail))
      ((sprintHeader cf.canId).length + 1) = some (cf.flags &&& 0x0F) := by
    have hsplit : sprintHeader cf.canId ++
        ([canidDelim, hexAscUpper (cf.flags &&& 0x0F).toNat] ++ tail) =
        (sprintHeader cf.canId ++ [canidDelim]) ++
          hexAscUpper (cf.flags &&& 0x0F).toNat :: tail := by simp
    rw [hsplit, nibbleAt_append _ _ hlow (by simp), UInt8.ofNat_toNat]
  have hdigit : ¬cf.flags &&& 0x0F > 0x0F := by
    have := not_gt_of_digit _ hlow
    rwa [UInt8.ofNat_toNat] at this
  have hR : ¬(canidDelim = 82 ∨ canidDelim = 114) := by decide
  rw [parsePayload, hdelim]
  simp only [if_neg hR, if_true, hflags, if_neg hdigit]
  have hbody := parseBody_sprintData
    (sprintHeader cf.canId ++ [canidDelim, hexAscUpper (cf.flags &&& 0x0F).toNat]) sep sep cf hle
    (by decide) (normalId cf.canId) (cf.flags &&& 0x0F) canfdMtu
  rw [htail, List.append_assoc, List.length_append] at hbody
  exact hbody

/-- What `sprint_canframe` writes for a frame, `parse_canframe` accepts, and it fills the frame that is
left of it: no identifier, length, flag or byte within the limits of its kind is changed, with or
without separators. -/
theorem sprint_then_parse (cf : CanfdFrame) (sep : Bool) (maxdlen : ℕ)
    (h : maxdlen = canMaxDlen ∨ maxdlen = canfdMaxDlen) :
    parseCanframe (sprintCanframe cf sep maxdlen) = some (mtu maxdlen, normal maxdlen cf) := by
  unfold normal mtu
  rcases h with rfl | rfl
  · have hfd : ¬canMaxDlen = canfdMaxDlen := by decide
    by_cases hrtr : hasFlag cf.canId canRtrFlag = true
    · rw [parse_sprint_remote cf sep hrtr]
      simp only [hrtr, and_self, if_true, if_neg hfd]
    · have hplain : ¬(canMaxDlen = canMaxDlen ∧ hasFlag cf.canId canRtrFlag = true) :=
        fun h => hrtr h.2
      rw [parse_sprint_classic cf sep hrtr rfl]
      dsimp only
      rw [if_neg hfd, if_neg hplain, if_neg hfd]
  · have hcan : ¬canfdMaxDlen = canMaxDlen := by decide
    rw [parse_sprint_fd cf sep rfl]
    simp only [hcan, false_and, if_false, if_true]

/-- A frame of CAN FD with two bytes, printed with separators -/
theorem sprint_then_parse_two_bytes :
    let cf : CanfdFrame := ⟨0x92345678#32, 2, 3, (Vector.replicate 64 0).set 1 0xAB (by decide)⟩
    parseCanframe (sprintCanframe cf true 64) = some (mtu 64, normal 64 cf) ∧ normal 64 cf = cf := by
  intro cf
  exact ⟨sprint_then_parse cf true 64 (Or.inr rfl), by decide +kernel⟩

end CodeC.CanFrame
