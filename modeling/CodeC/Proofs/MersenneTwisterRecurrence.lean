import CodeC.MersenneTwister

/-!
# The generator computes its recurrence

The words form one sequence: the first 624 come from the seed, and each later one is computed from
three earlier ones. The buffer always holds 624 consecutive words of it, and the numbers handed out
are the words after the first block, tempered.
-/

namespace CodeC.MemoryReordering
open Library

/-- The words of the first block -/
def seeded (seed : UInt32) : ℕ → UInt32
  | 0 => seed
  | k + 1 => seedWord (fun _ => seeded seed k) (k + 1)

lemma mtM_pos : 0 < mtM := by decide

lemma mtM_lt : mtM < mtN := by decide

def nextWord (a b c : UInt32) : UInt32 := a ^^^ twist b c

/-- The sequence of the words -/
def word (seed : UInt32) : ℕ → UInt32 := recurrence mtM_pos mtM_lt nextWord (seeded seed)

/-- The constructor writes the first block. -/
lemma holdsBlock_seed (memory : ℕ → UInt32) (seed : UInt32) :
    HoldsBlock mtN (word seed) (mersenneTwister memory seed).buffer 0 := by
  have hlast : 1 + (mtN - 1) = mtN := by decide
  have hloop : ∀ j < mtN, assign seedWord 1 (mtN - 1) (Function.update memory 0 seed) j =
      if j < 1 + (mtN - 1) then seeded seed j else memory j := by
    apply assign_eq
    · intro j _
      by_cases hj : j = 0
      · subst hj
        rw [Function.update_self, if_pos Nat.one_pos]
        rfl
      · rw [Function.update_of_ne hj, if_neg (by omega)]
    · exact Nat.le_of_eq hlast
    · intro i c hi hlt hc
      cases i with
      | zero => exact absurd hi (Nat.not_lt_zero 0)
      | succ k =>
        have hk : c k = seeded seed k := by
          rw [hc k (by omega), if_pos (Nat.lt_succ_self k)]
        rw [seeded]
        unfold seedWord
        rw [Nat.add_sub_cancel, hk]
  intro j hj
  have hword : word seed j = seeded seed j := recurrence_seed _ _ _ _ hj
  unfold mersenneTwister
  dsimp only
  rw [Nat.zero_add, hword, hloop j hj, if_pos (by omega)]

/-- After `n` calls the buffer holds a block, and the index points behind the `n`th word of it. -/
structure Generates (seed : UInt32) (m : MersenneTwister) (n : ℕ) : Prop where
  block : ∃ k, HoldsBlock mtN (word seed) m.buffer k ∧ k + m.index = mtN + n
  index : m.index ≤ mtN

lemma Generates.integer {seed : UInt32} {m : MersenneTwister} {n : ℕ} (h : Generates seed m n) :
    m.integer.1 = temper (word seed (mtN + n)) ∧ Generates seed m.integer.2 (n + 1) := by
  obtain ⟨k, hblock, hindex⟩ := h.block
  have hle := h.index
  unfold MersenneTwister.integer
  by_cases hused : mtN ≤ m.index
  · have hnew : HoldsBlock mtN (word seed) (regenerate m.buffer) (k + mtN) :=
      hblock.nextBlock mtM_pos mtM_lt (recurrence_add _ _ _ _)
    have hpos : 0 < mtN := by decide
    rw [if_pos hused]
    dsimp only
    refine ⟨?_, ⟨k + mtN, hnew, ?_⟩, ?_⟩
    · rw [hnew 0 hpos, show k + mtN + 0 = mtN + n by omega]
    · dsimp only
      omega
    · dsimp only
      omega
  · rw [if_neg hused]
    dsimp only
    refine ⟨?_, ⟨k, hblock, ?_⟩, ?_⟩
    · rw [hblock m.index (by omega), hindex]
    · dsimp only
      omega
    · dsimp only
      omega

lemma generates_afterCalls (memory : ℕ → UInt32) (seed : UInt32) (n : ℕ) :
    Generates seed ((mersenneTwister memory seed).afterCalls n) n := by
  induction n with
  | zero => exact ⟨⟨0, holdsBlock_seed memory seed, Nat.zero_add _⟩, Nat.le_refl _⟩
  | succ n ih => exact ih.integer.2

/-- The numbers that `Integer` returns are the words of the recurrence from the 624th on, tempered.
They depend on the seed only, not on what was in the memory of the object. -/
theorem integer_follows_recurrence (memory : ℕ → UInt32) (seed : UInt32) (n : ℕ) :
    ((mersenneTwister memory seed).afterCalls n).integer.1 = temper (word seed (mtN + n)) ∧
      (∀ k, word seed (k + mtN) = word seed (k + mtM) ^^^ twist (word seed k) (word seed (k + 1))) ∧
      ((mersenneTwister memory seed).afterCalls n).index ≤ mtN :=
  ⟨(generates_afterCalls memory seed n).integer.1, recurrence_add _ _ _ _,
    (generates_afterCalls memory seed n).index⟩

end CodeC.MemoryReordering
