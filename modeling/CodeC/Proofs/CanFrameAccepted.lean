import CodeC.Proofs.CanFrameRoundTrip
import CodeC.Library.Bits

/-!
# The frames that `parse_canframe` accepts

A return value other than `0` is the size of a frame of CAN 2.0 or of CAN FD. The frame is then within
the limits of its kind, and printing it gives a text for the same frame, whatever separators and
lower-case digits the first text had. Only an identifier with more bits than its kind has is accepted
and not printed again.
-/

namespace CodeC.CanFrame
open Library

lemma hasFlag_twoPow (id : BitVec 32) {i : ℕ} (hi : i < 32) :
    hasFlag id (BitVec.twoPow 32 i) = id.getLsbD i := by
  rw [Bool.eq_iff_iff, ← and_twoPow_ne_zero_iff id hi, hasFlag, bne_iff_ne]

lemma hasFlag_err (id : BitVec 32) : hasFlag id canErrFlag = id.getLsbD 29 :=
  hasFlag_twoPow id (show 29 < 32 by omega)

lemma hasFlag_rtr (id : BitVec 32) : hasFlag id canRtrFlag = id.getLsbD 30 :=
  hasFlag_twoPow id (show 30 < 32 by omega)

lemma hasFlag_eff (id : BitVec 32) : hasFlag id canEffFlag = id.getLsbD 31 :=
  hasFlag_twoPow id (show 31 < 32 by omega)

/-- A mask of the lowest `n` bits keeps what is below `2 ^ n`. -/
lemma and_mask_of_lt {id : BitVec 32} {n : ℕ} (hid : id.toNat < 2 ^ n) :
    id &&& BitVec.ofNat 32 (2 ^ n - 1) = id := by
  apply BitVec.eq_of_getLsbD_eq
  intro i hi
  rw [BitVec.getLsbD_and, BitVec.getLsbD_ofNat, Nat.testBit_two_pow_sub_one]
  by_cases hlt : i < n
  · simp [hlt, hi]
  · simp [getLsbD_eq_false_of_lt hid (show n ≤ i by omega)]

lemma normalId_of_sff {id : BitVec 32} (hid : id.toNat < 2 ^ 11) : normalId id = id := by
  unfold normalId
  rw [hasFlag_err, hasFlag_eff, getLsbD_eq_false_of_lt hid (by omega), getLsbD_eq_false_of_lt hid (by omega)]
  exact and_mask_of_lt hid

lemma normalId_of_err {id : BitVec 32} (hid : id.toNat < 2 ^ 30)
    (herr : hasFlag id canErrFlag = true) : normalId id = id := by
  unfold normalId
  rw [if_pos herr]
  exact and_mask_of_lt hid

lemma toNat_lt_of_bit {id : BitVec 32} {n : ℕ} (hid : id.toNat < 2 ^ (n + 1))
    (hbit : id.getLsbD n = false) : id.toNat < 2 ^ n := by
  apply Nat.lt_pow_two_of_testBit
  intro i hi
  by_cases heq : i = n
  · rw [heq]
    exact hbit
  · exact getLsbD_eq_false_of_lt hid (by omega)

lemma normalId_of_eff {id : BitVec 32} (hid : id.toNat < 2 ^ 30)
    (herr : ¬hasFlag id canErrFlag = true) : normalId (id ||| canEffFlag) = id ||| canEffFlag := by
  have hlt : id.toNat < 2 ^ 29 := by
    apply toNat_lt_of_bit hid
    rw [← hasFlag_err]
    simpa using herr
  have herr' : ¬hasFlag (id ||| canEffFlag) canErrFlag = true := by
    rw [hasFlag_err, BitVec.getLsbD_or, getLsbD_eq_false_of_lt hlt (by omega)]
    decide
  have heff : hasFlag (id ||| canEffFlag) canEffFlag = true := by
    rw [hasFlag_eff, BitVec.getLsbD_or]
    simp [canEffFlag]
  have hmask : (id ||| canEffFlag) &&& canEffMask = id := by
    have hflag : canEffFlag &&& canEffMask = 0#32 := by decide
    rw [BitVec.and_or_distrib_right, hflag, BitVec.or_zero]
    exact and_mask_of_lt hlt
  unfold normalId
  rw [if_neg herr', if_pos heff, hmask]

/-- The flag of a remote frame changes nothing else. -/
lemma normalId_or_rtr (id : BitVec 32) : normalId (id ||| canRtrFlag) = normalId id := by
  have hflag : ∀ flag : BitVec 32, canRtrFlag &&& flag = 0#32 →
      (id ||| canRtrFlag) &&& flag = id &&& flag := by
    intro flag h
    rw [BitVec.and_or_distrib_right, h, BitVec.or_zero]
  unfold normalId hasFlag
  rw [hflag canErrFlag (by decide), hflag canEffFlag (by decide),
    hflag (canErrMask ||| canErrFlag) (by decide), hflag canEffMask (by decide),
    hflag canSffMask (by decide)]

/-- The first digit that is left is a digit, and the loop goes on behind it. -/
lemma parseId_succ {cs : List UInt8} {digits k : ℕ} {cf cf' : CanfdFrame}
    (h : parseId cs digits (k + 1) cf = some (.next cf')) :
    ∃ tmp, nibbleAt cs (digits - (k + 1)) = some tmp ∧ tmp.toNat < 2 ^ 4 ∧
      parseId cs digits k { cf with
        canId := cf.canId ||| BitVec.ofNat 32 tmp.toNat <<< (k * 4) } = some (.next cf') := by
  rw [parseId] at h
  cases hn : nibbleAt cs (digits - (k + 1)) with
  | none => simp [hn] at h
  | some tmp =>
    simp only [hn] at h
    by_cases hdigit : tmp > 0x0F
    · simp [if_pos hdigit] at h
    · rw [if_neg hdigit] at h
      refine ⟨tmp, rfl, ?_, h⟩
      have hle : tmp.toNat ≤ 15 := UInt8.le_iff_toNat_le.mp (UInt8.not_lt.mp hdigit)
      omega

lemma digit_or_lt {tmp : UInt8} {id : BitVec 32} {k m : ℕ} (htmp : tmp.toNat < 2 ^ m)
    (hid : id.toNat < 2 ^ (k * 4)) :
    (BitVec.ofNat 32 tmp.toNat <<< (k * 4) ||| id).toNat < 2 ^ (k * 4 + m) := by
  rw [BitVec.toNat_or]
  apply Nat.or_lt_two_pow
  · rw [BitVec.toNat_shiftLeft, Nat.shiftLeft_eq, BitVec.toNat_ofNat]
    calc (tmp.toNat % 2 ^ 32 * 2 ^ (k * 4)) % 2 ^ 32
        ≤ tmp.toNat % 2 ^ 32 * 2 ^ (k * 4) := Nat.mod_le _ _
      _ ≤ tmp.toNat * 2 ^ (k * 4) := Nat.mul_le_mul_right _ (Nat.mod_le _ _)
      _ < 2 ^ m * 2 ^ (k * 4) := Nat.mul_lt_mul_of_pos_right htmp (Nat.two_pow_pos _)
      _ = 2 ^ (k * 4 + m) := by rw [← Nat.pow_add, Nat.add_comm]
  · exact Nat.lt_of_lt_of_le hid (Nat.pow_le_pow_right (by omega) (by omega))

/-- Reading an identifier sets no other field. -/
lemma parseId_next {cs : List UInt8} {digits k : ℕ} {cf cf' : CanfdFrame}
    (h : parseId cs digits k cf = some (.next cf')) :
    ∃ id, cf' = { cf with canId := cf.canId ||| id } ∧ id.toNat < 2 ^ (k * 4) := by
  induction k generalizing cf with
  | zero =>
    simp only [parseId, Option.some.injEq, Step.next.injEq] at h
    exact ⟨0#32, by simp [← h], by simp⟩
  | succ k ih =>
    obtain ⟨tmp, -, htmp, hrest⟩ := parseId_succ h
    obtain ⟨id, rfl, hid⟩ := ih hrest
    refine ⟨BitVec.ofNat 32 tmp.toNat <<< (k * 4) ||| id, by simp only [BitVec.or_assoc], ?_⟩
    have hlt := digit_or_lt htmp hid
    rwa [show k * 4 + 4 = (k + 1) * 4 by omega] at hlt

/-- The identifier of `digits + 1` digits, and its size when the first digit is below `2 ^ m` -/
lemma parseId_lt (m : ℕ) {cs : List UInt8} {digits : ℕ} {cf : CanfdFrame}
    (h : parseId cs (digits + 1) (digits + 1) zeroFrame = some (.next cf)) :
    ∃ id, cf = { zeroFrame with canId := id } ∧
      ((∀ tmp, nibbleAt cs 0 = some tmp → tmp.toNat < 2 ^ m) → id.toNat < 2 ^ (digits * 4 + m)) := by
  obtain ⟨tmp, htmp, -, hrest⟩ := parseId_succ h
  rw [Nat.sub_self] at htmp
  obtain ⟨id, rfl, hid⟩ := parseId_next hrest
  refine ⟨BitVec.ofNat 32 tmp.toNat <<< (digits * 4) ||| id, ?_, ?_⟩
  · have hzero : zeroFrame.canId = 0#32 := rfl
    simp only [hzero, BitVec.zero_or]
  · intro hfirst
    exact digit_or_lt (hfirst tmp htmp) hid

/-- The first digit leaves the bits free that stand for flags: an identifier of three digits has 11
bits, one of eight digits 29 bits and the flag of an error frame. -/
def InRange (cs : List UInt8) : Prop :=
  ∀ tmp, nibbleAt cs 0 = some tmp →
    tmp.toNat < if charAt cs 3 = some canidDelim then 2 ^ 3 else 2 ^ 2

/-- A header that is read has three digits before its delimiter, or eight. -/
lemma parseHeader_inv {cs : List UInt8} {cf cf' : CanfdFrame} {idx : ℕ}
    (h : parseHeader cs cf = some (.next (cf', idx))) :
    (charAt cs 3 = some canidDelim ∧ parseId cs 3 3 cf = some (.next cf')) ∨
    (charAt cs 3 ≠ some canidDelim ∧ ∃ cf₁, parseId cs 8 8 cf = some (.next cf₁) ∧
      cf' = if hasFlag cf₁.canId canErrFlag then cf₁
        else { cf₁ with canId := cf₁.canId ||| canEffFlag }) := by
  unfold parseHeader at h
  cases h3 : charAt cs 3 with
  | none => simp [h3] at h
  | some c =>
    simp only [h3] at h
    by_cases hc : c = canidDelim
    · left
      rw [if_pos hc] at h
      cases hid : parseId cs 3 3 cf with
      | none => simp [hid] at h
      | some r =>
        cases r with
        | reject cf₁ => simp [hid] at h
        | next cf₁ =>
          simp only [hid, Option.some.injEq, Step.next.injEq, Prod.mk.injEq] at h
          exact ⟨by rw [hc], by rw [h.1]⟩
    · right
      refine ⟨by simpa using hc, ?_⟩
      rw [if_neg hc] at h
      cases h8 : charAt cs 8 with
      | none => simp [h8] at h
      | some c' =>
        simp only [h8] at h
        by_cases hc' : c' = canidDelim
        · rw [if_pos hc'] at h
          cases hid : parseId cs 8 8 cf with
          | none => simp [hid] at h
          | some r =>
            cases r with
            | reject cf₁ => simp [hid] at h
            | next cf₁ =>
              simp only [hid] at h
              refine ⟨cf₁, rfl, ?_⟩
              by_cases herr : hasFlag cf₁.canId canErrFlag = true
              · simp only [if_pos herr, Option.some.injEq, Step.next.injEq, Prod.mk.injEq] at h
                rw [if_pos herr, h.1]
              · simp only [if_neg herr, Option.some.injEq, Step.next.injEq, Prod.mk.injEq] at h
                rw [if_neg herr, h.1]
        · simp [if_neg hc'] at h

/-- The header sets the identifier alone, and one within its range is its own normal form. -/
lemma parseHeader_next {cs : List UInt8} {cf : CanfdFrame} {idx : ℕ}
    (h : parseHeader cs zeroFrame = some (.next (cf, idx))) :
    ∃ id, cf = { zeroFrame with canId := id } ∧
      (InRange cs → normalId id = id ∧ hasFlag id canRtrFlag = false) := by
  rcases parseHeader_inv h with ⟨h3, hid⟩ | ⟨h3, cf', hid, rfl⟩
  · obtain ⟨id, rfl, hlt⟩ := parseId_lt 3 hid
    refine ⟨id, rfl, ?_⟩
    intro hrange
    rw [InRange, if_pos h3] at hrange
    rw [hasFlag_rtr, getLsbD_eq_false_of_lt (hlt hrange) (by omega)]
    exact ⟨normalId_of_sff (hlt hrange), rfl⟩
  · obtain ⟨id, rfl, hlt⟩ := parseId_lt 2 hid
    rw [InRange, if_neg h3]
    by_cases herr : hasFlag id canErrFlag = true
    · refine ⟨id, if_pos herr, ?_⟩
      intro hrange
      rw [hasFlag_rtr, getLsbD_eq_false_of_lt (hlt hrange) (by omega)]
      exact ⟨normalId_of_err (hlt hrange) herr, rfl⟩
    · refine ⟨id ||| canEffFlag, if_neg herr, ?_⟩
      intro hrange
      refine ⟨normalId_of_eff (hlt hrange) herr, ?_⟩
      rw [hasFlag_rtr, BitVec.getLsbD_or, getLsbD_eq_false_of_lt (hlt hrange) (by omega)]
      decide

/-- The bytes from `n` on are zero. -/
def ZeroFrom (data : Vector UInt8 64) (n : ℕ) : Prop := ∀ j (hj : j < 64), n ≤ j → data[j] = 0

lemma clip_of_zeroFrom {data : Vector UInt8 64} {n : ℕ} (h : ZeroFrom data n) : clip data n = data := by
  apply Vector.ext
  intro j hj
  rw [clip, Vector.getElem_ofFn]
  by_cases hlt : j < n
  · rw [if_pos hlt]
  · rw [if_neg hlt, h j hj (by omega)]

lemma ZeroFrom.set {data : Vector UInt8 64} {n : ℕ} (h : ZeroFrom data n) (b : UInt8) :
    ZeroFrom (data.setIfInBounds n b) (n + 1) := by
  intro j hj hle
  rw [Vector.getElem_setIfInBounds_ne hj (by omega)]
  exact h j hj (by omega)

/-- The loop over the data sets the bytes before the length it stores, and no other field. -/
lemma parseData_next {cs : List UInt8} {k dlen idx : ℕ} {cf cf' : CanfdFrame}
    (hzero : ZeroFrom cf.data dlen) (h : parseData cs k dlen idx cf = some (.next cf')) :
    ∃ n data, n ≤ dlen + k ∧ ZeroFrom data n ∧
      cf' = { cf with len := UInt8.ofNat n, data := data } := by
  induction k generalizing dlen idx cf with
  | zero =>
    simp only [parseData, Option.some.injEq, Step.next.injEq] at h
    exact ⟨dlen, cf.data, by omega, hzero, h.symm⟩
  | succ k ih =>
    rw [parseData] at h
    cases hc : charAt cs idx with
    | none => simp [hc] at h
    | some c =>
      simp only [hc] at h
      generalize (if c = dataSeperator then idx + 1 else idx) = start at h
      by_cases hend : start ≥ cs.length
      · simp only [if_pos hend, Option.some.injEq, Step.next.injEq] at h
        exact ⟨dlen, cf.data, by omega, hzero, h.symm⟩
      · rw [if_neg hend] at h
        cases hhigh : nibbleAt cs start with
        | none => simp [hhigh] at h
        | some high =>
          simp only [hhigh] at h
          by_cases hdigit : high > 0x0F
          · simp [if_pos hdigit] at h
          · rw [if_neg hdigit] at h
            cases hlow : nibbleAt cs (start + 1) with
            | none => simp [hlow] at h
            | some low =>
              simp only [hlow] at h
              by_cases hdigit' : low > 0x0F
              · simp [if_pos hdigit'] at h
              · rw [if_neg hdigit', Vector.setIfInBounds_setIfInBounds] at h
                obtain ⟨n, data, hn, hdata, rfl⟩ := ih (hzero.set _) h
                exact ⟨n, data, by omega, hdata, rfl⟩

/-- What is accepted from an identifier on: a remote frame, a frame of CAN 2.0 or one of CAN FD, each
within its limits -/
inductive Accepted (id : BitVec 32) : ℕ → CanfdFrame → Prop
  | remote {len : UInt8} (hlen : len.toNat ≤ canMaxDlc) :
      Accepted id canMtu ⟨id ||| canRtrFlag, len, 0, Vector.replicate 64 0⟩
  | classic {n : ℕ} {data : Vector UInt8 64} (hlen : n ≤ canMaxDlen) (hdata : ZeroFrom data n) :
      Accepted id canMtu ⟨id, UInt8.ofNat n, 0, data⟩
  | fd {n : ℕ} {flags : UInt8} {data : Vector UInt8 64} (hlen : n ≤ canfdMaxDlen)
      (hflags : flags ≤ 0x0F) (hdata : ZeroFrom data n) :
      Accepted id canfdMtu ⟨id, UInt8.ofNat n, flags, data⟩

lemma parseBody_next {cs : List UInt8} {id : BitVec 32} {flags : UInt8} {idx maxdlen ret r : ℕ}
    {cf : CanfdFrame} (hr : r ≠ 0)
    (h : parseBody cs { zeroFrame with canId := id, flags := flags } idx maxdlen ret = some (r, cf)) :
    ∃ n data, n ≤ maxdlen ∧ ZeroFrom data n ∧ r = ret ∧ cf = ⟨id, UInt8.ofNat n, flags, data⟩ := by
  have hzero : ZeroFrom zeroFrame.data 0 := fun j hj _ => Vector.getElem_replicate hj
  unfold parseBody at h
  generalize hcf₀ : ({ zeroFrame with canId := id, flags := flags } : CanfdFrame) = cf₀ at h
  have hdata₀ : cf₀.data = zeroFrame.data := by rw [← hcf₀]
  cases hd : parseData cs maxdlen 0 idx cf₀ with
  | none => simp [hd] at h
  | some s =>
    cases s with
    | reject cf' =>
      simp only [hd, Option.some.injEq, Prod.mk.injEq] at h
      exact absurd h.1.symm hr
    | next cf' =>
      simp only [hd, Option.some.injEq, Prod.mk.injEq] at h
      obtain ⟨rfl, rfl⟩ := h
      obtain ⟨n, data, hn, hdata, rfl⟩ := parseData_next (by rw [hdata₀]; exact hzero) hd
      exact ⟨n, data, by omega, hdata, rfl, by rw [← hcf₀]⟩

lemma parseRtr_next {cs : List UInt8} {id : BitVec 32} {idx r : ℕ} {cf : CanfdFrame}
    (h : parseRtr cs { zeroFrame with canId := id } idx = some (r, cf)) : Accepted id r cf := by
  unfold parseRtr at h
  cases hc : charAt cs idx with
  | none => simp [hc] at h
  | some c =>
    simp only [hc] at h
    by_cases hlen : c ≠ 0 ∧ (asc2nibble c).toNat ≤ canMaxDlc
    · simp only [if_pos hlen, Option.some.injEq, Prod.mk.injEq] at h
      obtain ⟨rfl, rfl⟩ := h
      exact Accepted.remote hlen.2
    · simp only [if_neg hlen, Option.some.injEq, Prod.mk.injEq] at h
      obtain ⟨rfl, rfl⟩ := h
      exact Accepted.remote (by decide)

lemma parsePayload_next {cs : List UInt8} {id : BitVec 32} {idx r : ℕ} {cf : CanfdFrame} (hr : r ≠ 0)
    (h : parsePayload cs { zeroFrame with canId := id } idx = some (r, cf)) : Accepted id r cf := by
  unfold parsePayload at h
  cases hc : charAt cs idx with
  | none => simp [hc] at h
  | some c =>
    simp only [hc] at h
    by_cases hR : c = 82 ∨ c = 114
    · rw [if_pos hR] at h
      exact parseRtr_next h
    · rw [if_neg hR] at h
      by_cases hfd : c = canidDelim
      · rw [if_pos hfd] at h
        cases hn : nibbleAt cs (idx + 1) with
        | none => simp [hn] at h
        | some tmp =>
          simp only [hn] at h
          by_cases hdigit : tmp > 0x0F
          · simp only [if_pos hdigit, Option.some.injEq, Prod.mk.injEq] at h
            exact absurd h.1.symm hr
          · rw [if_neg hdigit] at h
            obtain ⟨n, data, hn, hdata, rfl, rfl⟩ := parseBody_next hr h
            exact Accepted.fd hn (UInt8.not_lt.mp hdigit) hdata
      · rw [if_neg hfd] at h
        obtain ⟨n, data, hn, hdata, rfl, rfl⟩ := parseBody_next hr h
        exact Accepted.classic hn hdata

/-- Every accepted frame is within the limits of its kind. -/
lemma accepted_of_parse {cs : List UInt8} {r : ℕ} {cf : CanfdFrame} (hr : r ≠ 0)
    (h : parseCanframe cs = some (r, cf)) :
    ∃ id, Accepted id r cf ∧ (InRange cs → normalId id = id ∧ hasFlag id canRtrFlag = false) := by
  unfold parseCanframe at h
  by_cases hlen : cs.length < 4
  · simp only [if_pos hlen, Option.some.injEq, Prod.mk.injEq] at h
    exact absurd h.1.symm hr
  · rw [if_neg hlen] at h
    cases hh : parseHeader cs zeroFrame with
    | none => simp [hh] at h
    | some s =>
      cases s with
      | reject cf' =>
        simp only [hh, Option.some.injEq, Prod.mk.injEq] at h
        exact absurd h.1.symm hr
      | next p =>
        obtain ⟨cf', idx⟩ := p
        simp only [hh] at h
        obtain ⟨id, rfl, hid⟩ := parseHeader_next hh
        exact ⟨id, parsePayload_next hr h, hid⟩

/-- The data length that stands for the kind of a frame -/
def maxdlenOf (r : ℕ) : ℕ := if r = canfdMtu then canfdMaxDlen else canMaxDlen

lemma toNat_ofNat_len {n : ℕ} (hn : n ≤ canfdMaxDlen) : (UInt8.ofNat n).toNat = n :=
  UInt8.toNat_ofNat_of_lt' (Nat.lt_of_le_of_lt hn (by decide))

lemma len_of_le {n maxdlen : ℕ} (hn : n ≤ maxdlen) (hmax : maxdlen ≤ canfdMaxDlen) :
    n = if (UInt8.ofNat n).toNat > maxdlen then maxdlen else (UInt8.ofNat n).toNat := by
  rw [toNat_ofNat_len (by omega), if_neg (by omega)]

/-- The text that `sprint_canframe` writes for an accepted frame, with or without separators, is
accepted again and gives the same frame, when the identifier of the first text was within its range. -/
theorem accepted_text_round_trips (cs : List UInt8) (r : ℕ) (cf : CanfdFrame) (sep : Bool)
    (hrange : InRange cs) (h : parseCanframe cs = some (r, cf)) (hr : r ≠ 0) :
    parseCanframe (sprintCanframe cf sep (maxdlenOf r)) = some (r, cf) := by
  obtain ⟨id, hacc, hid⟩ := accepted_of_parse hr h
  obtain ⟨hnormal, hrtr⟩ := hid hrange
  cases hacc with
  | @remote len hlen =>
    have hflag : hasFlag (id ||| canRtrFlag) canRtrFlag = true := by
      rw [hasFlag_rtr, BitVec.getLsbD_or]
      simp [canRtrFlag]
    have hprint := parse_sprint_remote ⟨id ||| canRtrFlag, len, 0, Vector.replicate 64 0⟩ sep hflag
    dsimp only at hprint
    rw [if_pos hlen, normalId_or_rtr, hnormal] at hprint
    exact hprint
  | @classic n data hlen hdata =>
    have hprint := parse_sprint_classic ⟨id, UInt8.ofNat n, 0, data⟩ sep (by simp [hrtr])
      (len_of_le hlen (by decide))
    dsimp only at hprint
    rw [hnormal, clip_of_zeroFrom hdata] at hprint
    exact hprint
  | @fd n flags data hlen hflags hdata =>
    have hprint := parse_sprint_fd ⟨id, UInt8.ofNat n, flags, data⟩ sep
      (len_of_le hlen (Nat.le_refl _))
    have hmask : flags &&& 0x0F = flags := by
      apply Hex.forall_byte (P := fun b => b ≤ 0x0F → b &&& 0x0F = b) _ flags hflags
      decide +kernel
    dsimp only at hprint
    rw [hnormal, clip_of_zeroFrom hdata, hmask] at hprint
    exact hprint

/-- The text `5A1#11.2233` -/
theorem accepted_text_round_trips_mixed_separators :
    ∃ cf, parseCanframe [53, 65, 49, 35, 49, 49, 46, 50, 50, 51, 51] = some (canMtu, cf) ∧
      cf.len = 3 ∧ parseCanframe (sprintCanframe cf false (maxdlenOf canMtu)) = some (canMtu, cf) := by
  have hparse : ∃ cf, parseCanframe [53, 65, 49, 35, 49, 49, 46, 50, 50, 51, 51] =
      some (canMtu, cf) ∧ cf.len = 3 := ⟨_, rfl, rfl⟩
  obtain ⟨cf, hcf, hlen⟩ := hparse
  refine ⟨cf, hcf, hlen, accepted_text_round_trips _ canMtu cf false ?_ hcf (by decide)⟩
  intro tmp htmp
  have h : nibbleAt [53, 65, 49, 35, 49, 49, 46, 50, 50, 51, 51] 0 = some 5 := by decide
  rw [h] at htmp
  cases htmp
  decide

end CodeC.CanFrame
