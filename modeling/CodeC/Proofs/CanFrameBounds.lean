import CodeC.CanFrame

/-!
# Which texts `parse_canframe` reads past their end

The function looks for the delimiter at index 3 and then at index 8, without a look at the length in
between. Every other read stays within the string and its NUL.
-/

namespace CodeC.CanFrame

lemma charAt_of_lt {cs : List UInt8} {i : ℕ} (h : i < cs.length) : charAt cs i = cs[i]? :=
  List.getElem?_append_left h

lemma charAt_ne_none {cs : List UInt8} {i : ℕ} (h : i ≤ cs.length) : ∃ c, charAt cs i = some c := by
  apply Option.ne_none_iff_exists'.mp
  rw [charAt, ne_eq, List.getElem?_eq_none_iff, List.length_append, List.length_singleton]
  omega

lemma charAt_eq_none_iff {cs : List UInt8} {i : ℕ} : charAt cs i = none ↔ cs.length < i := by
  rw [charAt, List.getElem?_eq_none_iff, List.length_append, List.length_singleton]
  omega

/-- A character that is not NUL stands before the end. -/
lemma lt_of_charAt {cs : List UInt8} {i : ℕ} {c : UInt8} (h : charAt cs i = some c) (hc : c ≠ 0) :
    i < cs.length := by
  rw [charAt] at h
  by_contra hge
  have hlen := (List.getElem?_eq_some_iff.mp h).1
  rw [List.length_append, List.length_singleton] at hlen
  have hi : i = cs.length := by omega
  subst hi
  rw [List.getElem?_concat_length] at h
  exact hc (Option.some.inj h).symm

lemma nibbleAt_ne_none {cs : List UInt8} {i : ℕ} (h : i ≤ cs.length) :
    ∃ tmp, nibbleAt cs i = some tmp := by
  obtain ⟨c, hc⟩ := charAt_ne_none h
  exact ⟨asc2nibble c, by rw [nibbleAt, hc]; rfl⟩

/-- A digit stands before the end. -/
lemma lt_of_nibbleAt {cs : List UInt8} {i : ℕ} {tmp : UInt8} (h : nibbleAt cs i = some tmp)
    (hdigit : ¬tmp > 0x0F) : i < cs.length := by
  obtain ⟨c, hc, rfl⟩ := Option.map_eq_some_iff.mp h
  apply lt_of_charAt hc
  rintro rfl
  exact hdigit (by decide)

lemma parseId_ne_none {cs : List UInt8} {digits : ℕ} (hdigits : digits ≤ cs.length) (k : ℕ)
    (cf : CanfdFrame) : parseId cs digits k cf ≠ none := by
  induction k generalizing cf with
  | zero => simp [parseId]
  | succ k ih =>
    obtain ⟨tmp, htmp⟩ := nibbleAt_ne_none (show digits - (k + 1) ≤ cs.length by omega)
    simp only [parseId, htmp]
    by_cases hdigit : tmp > 0x0F
    · simp [hdigit]
    · rw [if_neg hdigit]
      exact ih _

lemma parseData_ne_none {cs : List UInt8} (k dlen : ℕ) {idx : ℕ} (hidx : idx ≤ cs.length)
    (cf : CanfdFrame) : parseData cs k dlen idx cf ≠ none := by
  induction k generalizing dlen idx cf with
  | zero => simp [parseData]
  | succ k ih =>
    obtain ⟨c, hc⟩ := charAt_ne_none hidx
    simp only [parseData, hc]
    generalize (if c = dataSeperator then idx + 1 else idx) = j
    by_cases hend : j ≥ cs.length
    · simp [hend]
    · rw [if_neg hend]
      obtain ⟨high, hhigh⟩ := nibbleAt_ne_none (show j ≤ cs.length by omega)
      obtain ⟨low, hlow⟩ := nibbleAt_ne_none (show j + 1 ≤ cs.length by omega)
      simp only [hhigh, hlow]
      by_cases hh : high > 0x0F
      · simp [hh]
      · rw [if_neg hh]
        by_cases hl : low > 0x0F
        · simp [hl]
        · rw [if_neg hl]
          exact ih _ (lt_of_nibbleAt hlow hl) _

lemma parseBody_ne_none {cs : List UInt8} {cf : CanfdFrame} {idx maxdlen ret : ℕ}
    (hidx : idx ≤ cs.length) : parseBody cs cf idx maxdlen ret ≠ none := by
  unfold parseBody
  cases hdata : parseData cs maxdlen 0 idx cf with
  | none => exact absurd hdata (parseData_ne_none maxdlen 0 hidx cf)
  | some r => cases r <;> simp

lemma parseRtr_ne_none {cs : List UInt8} {cf : CanfdFrame} {idx : ℕ} (hidx : idx ≤ cs.length) :
    parseRtr cs cf idx ≠ none := by
  obtain ⟨c, hc⟩ := charAt_ne_none hidx
  simp only [parseRtr, hc]
  split <;> simp

lemma parsePayload_ne_none {cs : List UInt8} {cf : CanfdFrame} {idx : ℕ} (hidx : idx ≤ cs.length) :
    parsePayload cs cf idx ≠ none := by
  obtain ⟨c, hc⟩ := charAt_ne_none hidx
  simp only [parsePayload, hc]
  by_cases hr : c = 82 ∨ c = 114
  · rw [if_pos hr]
    apply parseRtr_ne_none
    apply lt_of_charAt hc
    rcases hr with rfl | rfl <;> decide
  · rw [if_neg hr]
    by_cases hfd : c = canidDelim
    · rw [if_pos hfd]
      have hlt : idx < cs.length := lt_of_charAt hc (by rw [hfd]; decide)
      obtain ⟨tmp, htmp⟩ := nibbleAt_ne_none (show idx + 1 ≤ cs.length from hlt)
      simp only [htmp]
      by_cases hdigit : tmp > 0x0F
      · simp [hdigit]
      · rw [if_neg hdigit]
        exact parseBody_ne_none (lt_of_nibbleAt htmp hdigit)
    · rw [if_neg hfd]
      exact parseBody_ne_none hidx

/-- The header is read to its end, or past the string when that is shorter than 8 characters and does
not have the delimiter of a standard identifier. -/
lemma parseHeader_cases {cs : List UInt8} (hlen : 4 ≤ cs.length) (cf : CanfdFrame) :
    (cs[3]? ≠ some canidDelim ∧ cs.length < 8 ∧ parseHeader cs cf = none) ∨
    ((cs[3]? = some canidDelim ∨ 8 ≤ cs.length) ∧
      ((∃ cf', parseHeader cs cf = some (.reject cf')) ∨
        ∃ cf' idx, parseHeader cs cf = some (.next (cf', idx)) ∧ idx ≤ cs.length)) := by
  have h3 : charAt cs 3 = cs[3]? := charAt_of_lt (by omega)
  obtain ⟨c, hc⟩ := charAt_ne_none (show 3 ≤ cs.length by omega)
  rw [← h3, hc]
  unfold parseHeader
  simp only [hc]
  by_cases hsff : c = canidDelim
  · right
    rw [if_pos hsff]
    refine ⟨Or.inl (by rw [hsff]), ?_⟩
    cases hid : parseId cs 3 3 cf with
    | none => exact absurd hid (parseId_ne_none (by omega) 3 cf)
    | some r =>
      cases r with
      | reject cf' => exact Or.inl ⟨cf', rfl⟩
      | next cf' => exact Or.inr ⟨cf', 4, rfl, hlen⟩
  · rw [if_neg hsff]
    by_cases hshort : cs.length < 8
    · left
      rw [charAt_eq_none_iff.mpr hshort]
      exact ⟨by simpa using hsff, hshort, rfl⟩
    · right
      refine ⟨Or.inr (by omega), ?_⟩
      obtain ⟨c8, hc8⟩ := charAt_ne_none (show 8 ≤ cs.length by omega)
      simp only [hc8]
      by_cases heff : c8 = canidDelim
      · rw [if_pos heff]
        have h9 : 8 < cs.length := lt_of_charAt hc8 (by rw [heff]; decide)
        cases hid : parseId cs 8 8 cf with
        | none => exact absurd hid (parseId_ne_none (by omega) 8 cf)
        | some r =>
          cases r with
          | reject cf' => exact Or.inl ⟨cf', rfl⟩
          | next cf' =>
            right
            by_cases herr : hasFlag cf'.canId canErrFlag = true
            · exact ⟨cf', 9, by simp [herr], h9⟩
            · exact ⟨_, 9, by simp only [herr]; rfl, h9⟩
      · rw [if_neg heff]
        exact Or.inl ⟨cf, rfl⟩

/-- `parse_canframe` reads behind the NUL of its argument exactly when that has 4 to 7 characters and
no delimiter at index 3. -/
theorem parse_reads_past_end_iff (cs : List UInt8) :
    parseCanframe cs = none ↔ 4 ≤ cs.length ∧ cs.length < 8 ∧ cs[3]? ≠ some canidDelim := by
  unfold parseCanframe
  by_cases hlen : cs.length < 4
  · rw [if_pos hlen]
    constructor
    · intro h
      cases h
    · intro h
      omega
  · rw [if_neg hlen]
    rcases parseHeader_cases (Nat.le_of_not_lt hlen) zeroFrame with
      ⟨h3, h8, hnone⟩ | ⟨hok, ⟨cf, hcf⟩ | ⟨cf, idx, hcf, hidx⟩⟩
    · rw [hnone]
      exact iff_of_true rfl ⟨Nat.le_of_not_lt hlen, h8, h3⟩
    · rw [hcf]
      apply iff_of_false (by simp)
      rintro ⟨-, h8, h3⟩
      exact hok.elim h3 (by omega)
    · rw [hcf]
      apply iff_of_false (parsePayload_ne_none hidx)
      rintro ⟨-, h8, h3⟩
      exact hok.elim h3 (by omega)

/-- The text `1234` -/
example : parseCanframe [49, 50, 51, 52] = none := by decide

end CodeC.CanFrame
