import CodeC.Proofs.Spmc10Exclusion
import Mathlib.Tactic.Linarith

/-!
# The layout of the segment of `spmc10.c`

The check at the head of `spmc_init` bounds `entry_num` and `buf_size` one by one. Their product is
an `int`, for the size of the segment as for the offset of an entry.
-/

namespace CodeC.Spmc10
open Library

/-- What the check at the head lets pass, and the size of an entry that the producer stores -/
lemma spmcInit_checked {entryNum bufSize : ℤ} {seg spmc : Spmc}
    (h : spmcInit entryNum bufSize true seg = some spmc) :
    0 < entryNum ∧ entryNum ≤ 64 ∧ 0 < bufSize ∧ (spmc.bufSize : ℤ) = bufSize := by
  unfold spmcInit entryNumMax at h
  split at h
  · case isTrue => exact absurd h (by simp)
  · case isFalse hcheck =>
    rw [if_pos rfl] at h
    rw [← Option.some.inj h]
    change _ ∧ _ ∧ _ ∧ (bufSize.toNat : ℤ) = bufSize
    omega

/-- The request holds all entries unless the product comes out small. -/
lemma segmentSize_covers_iff {entryNum bufSize : ℤ} (hpos : 0 ≤ entryNum * bufSize)
    (hlt : entryNum * bufSize < 2 ^ 32) :
    headerSize + entryNum * bufSize ≤ segmentSize entryNum bufSize ↔
      entryNum * bufSize < 2 ^ 32 - headerSize := by
  unfold segmentSize headerSize entryNumMax
  rw [wrap32_eq_emod]
  omega

/-- An offset is exact as long as it is an `int`. -/
lemma entryOffset_eq_iff {spmc : Spmc} {i : ℕ} :
    entryOffset spmc i = i * spmc.bufSize ↔ (i : ℤ) * spmc.bufSize < 2 ^ 31 := by
  have hpos : (0 : ℤ) ≤ i * spmc.bufSize := by positivity
  rw [entryOffset, wrap32_eq_emod]
  omega

lemma entryIndex_mul {spmc : Spmc} {i : ℕ} (hsize : 0 < spmc.bufSize) (hi : i < 64) :
    entryIndex spmc (i * spmc.bufSize) = i := by
  rw [entryIndex, Int.mul_tdiv_cancel _ (by omega), wrap32_of_range (by omega) (by omega)]

lemma bufSize_run {n : ℕ} {debug : Bool} {shm : Spmc} {as : List (Action n)} {s : State n}
    {es : List (Event n)} (hrun : run (step debug) (start shm) as = some (s, es)) :
    s.shm.bufSize = shm.bufSize := by
  refine run_invariant_state (step debug) (fun s => s.shm.bufSize = shm.bufSize) ?_ rfl hrun
  intro u a u' fs hu hs
  refine Eq.trans ?_ hu
  cases step_move hs <;> rfl

/-- In every run with exact offsets, the index that `producer_alloc_end` and `consumer_alloc_end` compute
from the address of an entry is the one that was taken. -/
theorem entryIndex_of_held {n : ℕ} {debug : Bool} {entryNum bufSize : ℤ} {seg shm : Spmc}
    (hinit : spmcInit entryNum bufSize true seg = some shm)
    (hfit : (entryNum - 1) * bufSize < 2 ^ 31) {as : List (Action n)} {s : State n}
    {es : List (Event n)} (hrun : run (step debug) (start shm) as = some (s, es)) {i : ℕ}
    (hheld : s.producer = .writing i ∨ ∃ k, s.consumer k = .reading i) :
    entryIndex s.shm (entryOffset s.shm i) = i := by
  have hinv := inv_run hinit hrun
  obtain ⟨-, hmax, hsize, rfl⟩ := spmcInit_checked hinit
  have hlt : i < s.shm.capacity := by
    rcases hheld with hp | ⟨k, hk⟩
    · exact hinv.producer_lt i (by rw [hp]; rfl)
    · exact hinv.consumer_lt k i (by rw [hk]; rfl)
  have hcap := (spmcInit_spec hinit).1
  rw [capacity_run hrun] at hlt
  have hle : (i : ℤ) * shm.bufSize ≤ (entryNum - 1) * shm.bufSize :=
    Int.mul_le_mul_of_nonneg_right (by omega) (by omega)
  have hbuf := bufSize_run hrun
  rw [entryOffset_eq_iff.mpr (by rw [hbuf]; omega), entryIndex_mul (by omega) (by omega)]

/-- For what passes the check, the segment holds the header and all entries, every entry lies in it
at its exact offset and is found again from its address, exactly when the offset of the last entry
is an `int` and the size of all entries does not come within a header of `2 ^ 32`. -/
theorem spmc_init_layout_iff (entryNum bufSize : ℤ) (hint : bufSize < 2 ^ 31) (seg spmc : Spmc)
    (hinit : spmcInit entryNum bufSize true seg = some spmc) :
    (headerSize + entryNum * bufSize ≤ segmentSize entryNum bufSize ∧
      ∀ i : ℕ, i < entryNum →
        entryOffset spmc i = i * bufSize ∧
        headerSize + entryOffset spmc i + bufSize ≤ segmentSize entryNum bufSize ∧
        entryIndex spmc (entryOffset spmc i) = i) ↔
      (entryNum - 1) * bufSize < 2 ^ 31 ∧ entryNum * bufSize < 2 ^ 32 - headerSize := by
  obtain ⟨hnum, hmax, hsize, rfl⟩ := spmcInit_checked hinit
  have hall : 0 ≤ entryNum * spmc.bufSize := by positivity
  have hlast : (entryNum - 1) * spmc.bufSize = entryNum * spmc.bufSize - spmc.bufSize := by
    rw [Int.sub_mul, Int.one_mul]
  apply Iff.intro
  · intro h
    obtain ⟨i, hi⟩ : ∃ i : ℕ, (i : ℤ) = entryNum - 1 := ⟨(entryNum - 1).toNat, by omega⟩
    have hoffset := entryOffset_eq_iff.mp (h.2 i (by omega)).1
    rw [hi] at hoffset
    exact ⟨hoffset, (segmentSize_covers_iff hall (by omega)).mp h.1⟩
  · intro h
    have hcovers := (segmentSize_covers_iff hall (by omega)).mpr h.2
    apply And.intro hcovers
    intro i hi
    have hle : (i : ℤ) * spmc.bufSize ≤ (entryNum - 1) * spmc.bufSize :=
      Int.mul_le_mul_of_nonneg_right (by omega) (by omega)
    have hoffset := entryOffset_eq_iff.mpr (show (i : ℤ) * spmc.bufSize < 2 ^ 31 by omega)
    rw [hoffset]
    exact ⟨rfl, by omega, entryIndex_mul (by omega) (by omega)⟩

theorem spmc_init_layout_kilobyte :
    ∃ spmc, spmcInit 64 1024 true zeroSegment = some spmc ∧
      headerSize + 64 * 1024 ≤ segmentSize 64 1024 ∧
      ∀ i : ℕ, (i : ℤ) < 64 →
        entryOffset spmc i = i * 1024 ∧
        headerSize + entryOffset spmc i + 1024 ≤ segmentSize 64 1024 ∧
        entryIndex spmc (entryOffset spmc i) = i :=
  ⟨_, rfl, (spmc_init_layout_iff 64 1024 (by decide) zeroSegment _ rfl).mpr (by decide)⟩

/-- Sixty-four entries of `2 ^ 26` bytes: the request is for the header alone, and entry 32 is put
`2 ^ 31` bytes before `buf` and taken for entry -32. -/
theorem spmc_init_layout_wraps :
    ∃ spmc, spmcInit 64 67108864 true zeroSegment = some spmc ∧
      segmentSize 64 67108864 = headerSize ∧ entryOffset spmc 32 = -2147483648 ∧
      entryIndex spmc (entryOffset spmc 32) = -32 :=
  ⟨_, rfl, by decide, by decide, by decide⟩

end CodeC.Spmc10
