import Mathlib.Logic.Function.Basic
import Mathlib.Tactic.Ring

/-!
# Recurrences computed block by block

A sequence whose words are computed from the word `n` places before, the one after it and the one
`n - m` places before can be kept in a buffer of `n` words that is replaced in place by the next `n`
words. `HoldsBlock x b k` says that the buffer `b` holds the words of `x` from `k` on.
-/

namespace CodeC.Library

variable {α : Type}

/-- A loop that assigns `value b i` to `b[i]` for the `count` indices from `first` on -/
def assign (value : (ℕ → α) → ℕ → α) (first : ℕ) : ℕ → (ℕ → α) → ℕ → α
  | 0, b => b
  | count + 1, b => assign value (first + 1) count (Function.update b first (value b first))

/-- The loop turns `g` into `f` when each of its values is the one of `f`, given that the indices
before it are done and the others are not. Only the first `n` indices matter. -/
lemma assign_eq {n first count : ℕ} {value : (ℕ → α) → ℕ → α} {f g b : ℕ → α}
    (hb : ∀ j < n, b j = if j < first then f j else g j) (hlast : first + count ≤ n)
    (hvalue : ∀ i c, first ≤ i → i < first + count →
      (∀ j < n, c j = if j < i then f j else g j) → value c i = f i) :
    ∀ j < n, assign value first count b j = if j < first + count then f j else g j := by
  induction count generalizing first b with
  | zero => exact hb
  | succ count ih =>
    intro j hj
    rw [assign, show first + (count + 1) = first + 1 + count by ring]
    refine ih ?_ (by omega) ?_ j hj
    · intro j hj
      by_cases hjf : j = first
      · subst hjf
        rw [Function.update_self, if_pos (Nat.lt_succ_self j)]
        exact hvalue j b (Nat.le_refl j) (by omega) hb
      · rw [Function.update_of_ne hjf, hb j hj]
        by_cases hlt : j < first
        · rw [if_pos hlt, if_pos (by omega)]
        · rw [if_neg hlt, if_neg (by omega)]
    · intro i c hi hlt hc
      exact hvalue i c (by omega) (by omega) hc

/-- The sequence that begins with `seed` -/
def recurrence {n m : ℕ} (hm : 0 < m) (hmn : m < n) (next : α → α → α → α) (seed : ℕ → α) (k : ℕ) :
    α :=
  if k < n then seed k
  else next (recurrence hm hmn next seed (k - (n - m))) (recurrence hm hmn next seed (k - n))
    (recurrence hm hmn next seed (k - (n - 1)))
termination_by k

section
variable {n m : ℕ} (hm : 0 < m) (hmn : m < n) (next : α → α → α → α) (seed : ℕ → α)

lemma recurrence_seed {k : ℕ} (h : k < n) : recurrence hm hmn next seed k = seed k := by
  rw [recurrence]
  exact if_pos h

lemma recurrence_add (k : ℕ) : recurrence hm hmn next seed (k + n) =
    next (recurrence hm hmn next seed (k + m)) (recurrence hm hmn next seed k)
      (recurrence hm hmn next seed (k + 1)) := by
  rw [recurrence, if_neg (by omega), show k + n - (n - m) = k + m by omega,
    show k + n - n = k by omega, show k + n - (n - 1) = k + 1 by omega]

end

def HoldsBlock (n : ℕ) (x b : ℕ → α) (k : ℕ) : Prop := ∀ j < n, b j = x (k + j)

/-- The buffer is overwritten from the front: the first words read the old block only, the others
also what has been written, and the last one wraps around. -/
def nextBlock (n m : ℕ) (next : α → α → α → α) (b : ℕ → α) : ℕ → α :=
  let b := assign (fun b i => next (b (i + m)) (b i) (b (i + 1))) 0 (n - m) b
  let b := assign (fun b i => next (b (i + m - n)) (b i) (b (i + 1))) (n - m) (m - 1) b
  Function.update b (n - 1) (next (b (m - 1)) (b (n - 1)) (b 0))

theorem HoldsBlock.nextBlock {n m : ℕ} (hm : 0 < m) (hmn : m < n) {next : α → α → α → α}
    {x b : ℕ → α} (hx : ∀ k, x (k + n) = next (x (k + m)) (x k) (x (k + 1))) {k : ℕ}
    (h : HoldsBlock n x b k) : HoldsBlock n x (nextBlock n m next b) (k + n) := by
  have hnext : ∀ i, x (k + n + i) = next (x (k + (i + m))) (x (k + i)) (x (k + (i + 1))) := by
    intro i
    rw [show k + n + i = k + i + n by ring, hx, Nat.add_assoc, Nat.add_assoc]
  -- the loop over the first words
  let low := assign (fun b i => next (b (i + m)) (b i) (b (i + 1))) 0 (n - m) b
  have hlow : ∀ j < n, low j = if j < 0 + (n - m) then x (k + n + j) else x (k + j) := by
    apply assign_eq (f := fun j => x (k + n + j)) (g := fun j => x (k + j))
    · intro j hj
      rw [if_neg (Nat.not_lt_zero j)]
      exact h j hj
    · omega
    · intro i c _ hi hc
      rw [hc (i + m) (by omega), hc i (by omega), hc (i + 1) (by omega), if_neg (by omega),
        if_neg (by omega), if_neg (by omega), hnext]
  rw [Nat.zero_add] at hlow
  -- the loop over the others, except for the last one
  let high := assign (fun b i => next (b (i + m - n)) (b i) (b (i + 1))) (n - m) (m - 1) low
  have hhigh : ∀ j < n, high j = if j < n - m + (m - 1) then x (k + n + j) else x (k + j) := by
    apply assign_eq (f := fun j => x (k + n + j)) (g := fun j => x (k + j)) hlow
    · omega
    · intro i c hi hlt hc
      rw [hc (i + m - n) (by omega), hc i (by omega), hc (i + 1) (by omega), if_pos (by omega),
        if_neg (by omega), if_neg (by omega), show k + n + (i + m - n) = k + (i + m) by omega, hnext]
  intro j hj
  change Function.update high (n - 1) (next (high (m - 1)) (high (n - 1)) (high 0)) j = _
  by_cases hlast : j = n - 1
  · subst hlast
    rw [Function.update_self, hhigh (m - 1) (by omega), hhigh (n - 1) hj, hhigh 0 (by omega),
      if_pos (by omega), if_neg (by omega), if_pos (by omega),
      show k + n + (m - 1) = k + (n - 1 + m) by omega, show k + n + 0 = k + (n - 1 + 1) by omega,
      hnext]
  · rw [Function.update_of_ne hlast, hhigh j hj, if_pos (by omega)]

end CodeC.Library
