import Mathlib.Data.Fintype.Card
import Mathlib.Data.Finset.Card

/-!
# Counting the parties in a given local state

`countWith p f` is the number of indices whose local state satisfies `p`. The update lemmas
say how the number changes when a single party moves.
-/

namespace CodeC.Library

variable {κ β : Type} [Fintype κ] [DecidableEq κ]

def countWith (p : β → Prop) [DecidablePred p] (f : κ → β) : ℕ :=
  (Finset.univ.filter fun k => p (f k)).card

omit [DecidableEq κ] in
lemma countWith_pos_iff (p : β → Prop) [DecidablePred p] (f : κ → β) :
    0 < countWith p f ↔ ∃ k, p (f k) := by
  unfold countWith
  rw [Finset.card_pos]
  constructor
  · rintro ⟨k, hk⟩
    exact ⟨k, (Finset.mem_filter.mp hk).2⟩
  · rintro ⟨k, hk⟩
    exact ⟨k, Finset.mem_filter.mpr ⟨Finset.mem_univ k, hk⟩⟩

omit [DecidableEq κ] in
lemma countWith_eq_zero_iff (p : β → Prop) [DecidablePred p] (f : κ → β) :
    countWith p f = 0 ↔ ∀ k, ¬p (f k) := by
  have h := countWith_pos_iff p f
  rw [Nat.pos_iff_ne_zero] at h
  rw [← not_iff_not, ← ne_eq, h]
  simp

omit [DecidableEq κ] in
lemma countWith_le_card (p : β → Prop) [DecidablePred p] (f : κ → β) :
    countWith p f ≤ Fintype.card κ :=
  Finset.card_le_univ _

/-- A move between two local states that agree on `p` does not change the number. -/
lemma countWith_update_same (p : β → Prop) [DecidablePred p] (f : κ → β) (k : κ) (b : β)
    (h : p b ↔ p (f k)) : countWith p (Function.update f k b) = countWith p f := by
  unfold countWith
  congr 1
  ext j
  by_cases hj : j = k
  · subst hj
    simp [h]
  · simp [hj]

lemma countWith_update_enter (p : β → Prop) [DecidablePred p] (f : κ → β) (k : κ) (b : β)
    (hold : ¬p (f k)) (hnew : p b) :
    countWith p (Function.update f k b) = countWith p f + 1 := by
  unfold countWith
  have hset : (Finset.univ.filter fun j => p (Function.update f k b j)) =
      insert k (Finset.univ.filter fun j => p (f j)) := by
    ext j
    by_cases hj : j = k
    · subst hj
      simp [hnew]
    · simp [hj]
  rw [hset, Finset.card_insert_of_notMem (by simp [hold])]

lemma countWith_update_leave (p : β → Prop) [DecidablePred p] (f : κ → β) (k : κ) (b : β)
    (hold : p (f k)) (hnew : ¬p b) :
    countWith p (Function.update f k b) + 1 = countWith p f := by
  have h := countWith_update_enter p (Function.update f k b) k (f k) (by simpa using hnew) hold
  rw [Function.update_idem, Function.update_eq_self] at h
  exact h.symm

end CodeC.Library
