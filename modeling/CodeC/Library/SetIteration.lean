import Mathlib.Data.List.FinRange

/-!
# Loops over an ordered set that grows meanwhile

The keys are `Fin n` in their order. A loop `for (k : members)` starts at the first member, and
after its body for `k` it goes on to the first member behind `k`. Members that another party
inserts in the meantime are visited when they lie behind the place the loop has reached.
-/

namespace CodeC.Library

variable {n : ℕ}

/-- The first member at or behind position `i`, `none` when the end is reached. -/
def firstFrom (members : Fin n → Bool) (i : ℕ) : Option (Fin n) :=
  (List.finRange n).find? fun k => decide (i ≤ k) && members k

lemma le_of_firstFrom {members : Fin n → Bool} {i : ℕ} {k : Fin n}
    (h : firstFrom members i = some k) : i ≤ k := by
  have hk := List.find?_some h
  simp only [Bool.and_eq_true, decide_eq_true_eq] at hk
  exact hk.1

lemma mem_of_firstFrom {members : Fin n → Bool} {i : ℕ} {k : Fin n}
    (h : firstFrom members i = some k) : members k = true := by
  have hk := List.find?_some h
  simp only [Bool.and_eq_true, decide_eq_true_eq] at hk
  exact hk.2

/-- The search does not go past a member. -/
lemma firstFrom_le {members : Fin n → Bool} {i : ℕ} {k : Fin n} (hk : members k = true)
    (hi : i ≤ k) : ∃ j, firstFrom members i = some j ∧ j ≤ k := by
  cases h : firstFrom members i with
  | none =>
    have hnone := List.find?_eq_none.mp h k (List.mem_finRange k)
    simp [hk, hi] at hnone
  | some j =>
    refine ⟨j, rfl, ?_⟩
    obtain ⟨-, l, hl, hlj, hbefore⟩ := List.find?_eq_some_iff_getElem.mp h
    by_contra hlt
    have hkj : (k : ℕ) < l := by
      have : (j : ℕ) = l := by simp [← hlj]
      omega
    have := hbefore k hkj
    simp [hk, hi] at this

/-- The place of a loop: at its head with an iterator, where `none` is the end, or in its body. -/
inductive Cursor (n : ℕ) where
  | head (it : Option (Fin n))
  | body (k : Fin n)
  deriving DecidableEq, Repr

namespace Cursor

def first (members : Fin n → Bool) : Cursor n := .head (firstFrom members 0)

def next (members : Fin n → Bool) (k : Fin n) : Cursor n := .head (firstFrom members (k + 1))

/-- The body for `k` has begun already, or `k` will be left out. -/
def Passed (k : Fin n) : Cursor n → Prop
  | .head it => ∀ j, it = some j → k < j
  | .body j => k ≤ j

instance (k : Fin n) (c : Cursor n) : Decidable (c.Passed k) :=
  match c with
  | .head none => .isTrue nofun
  | .head (some j) => decidable_of_iff (k < j) (by simp [Passed])
  | .body j => inferInstanceAs (Decidable (k ≤ j))

lemma passed_end (k : Fin n) : (head none).Passed k := nofun

lemma not_passed_first {members : Fin n → Bool} {k : Fin n} (hk : members k = true) :
    ¬(first members).Passed k := by
  obtain ⟨j, hj, hjk⟩ := firstFrom_le hk (Nat.zero_le k)
  intro h
  exact absurd (h j hj) (not_lt.mpr hjk)

lemma passed_next {members : Fin n → Bool} {j k : Fin n} (h : (body j).Passed k) :
    (next members j).Passed k := by
  intro l hl
  have hle : (j : ℕ) + 1 ≤ l := le_of_firstFrom hl
  exact lt_of_le_of_lt h hle

lemma not_passed_next {members : Fin n → Bool} {j k : Fin n} (hk : members k = true)
    (h : ¬(body j).Passed k) : ¬(next members j).Passed k := by
  have hjk : (j : ℕ) + 1 ≤ k := not_le.mp h
  obtain ⟨l, hl, hlk⟩ := firstFrom_le hk hjk
  intro hpassed
  exact absurd (hpassed l hl) (not_lt.mpr hlk)

lemma passed_next_iff {members : Fin n → Bool} {j k : Fin n} (hk : members k = true) :
    (next members j).Passed k ↔ (body j).Passed k :=
  ⟨not_imp_not.mp (not_passed_next hk), passed_next⟩

/-- The head with an iterator to `j` and the body for `j` differ by `j` itself. -/
lemma passed_body_iff {j k : Fin n} : (body j).Passed k ↔ j = k ∨ (head (some j)).Passed k := by
  have hhead : (head (some j)).Passed k ↔ k < j := by simp [Passed]
  rw [hhead]
  exact le_iff_eq_or_lt.trans (or_congr_left eq_comm)

lemma not_passed_head_self (k : Fin n) : ¬(head (some k)).Passed k := by simp [Passed]

end Cursor

end CodeC.Library
