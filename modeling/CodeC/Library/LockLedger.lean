import CodeC.Library.LockWord

/-!
# What a lock word accounts for when it can be overwritten

A lock word counts up and down with every shared access, whatever its value, and the owner of
the lock releases it by storing 0. Whoever shares the lock at that moment is forgotten: the
word is off by the number of parties that shared the lock when it was last released.
-/

namespace CodeC.Library

lemma wrap32_eq_zero_iff (x : ℤ) : wrap32 x = 0 ↔ (2 ^ 32 : ℤ) ∣ x := by
  unfold wrap32
  rw [← Int.dvd_iff_bmod_eq_zero]
  norm_num

variable {κ : Type} [Fintype κ] [DecidableEq κ]

/-- Every word is the number of parties sharing its lock, less one for the owner, less the
number `lost` of parties that its last release forgot. -/
def LockLedger (locks : ℕ → ℤ) (owner : Option ℕ) (held : κ → Option ℕ) (lost : ℕ → ℕ) : Prop :=
  ∀ i, locks i = wrap32 (countWith (· = some i) held - (if owner = some i then 1 else 0) - lost i)

namespace LockLedger

variable {locks : ℕ → ℤ} {owner : Option ℕ} {held : κ → Option ℕ} {lost : ℕ → ℕ}

omit [DecidableEq κ] in
lemma init (hfree : ∀ i, locks i = 0) :
    LockLedger locks none (fun _ : κ => none) (fun _ => 0) := by
  intro i
  have hz : countWith (· = some i) (fun _ : κ => (none : Option ℕ)) = 0 := by
    rw [countWith_eq_zero_iff]
    simp
  rw [hfree i, hz]
  simp [wrap32]

omit [DecidableEq κ] in
lemma lock_write (h : LockLedger locks none held lost) {i : ℕ} (hw : locks i = 0) :
    LockLedger (Function.update locks i (-1)) (some i) held lost := by
  intro j
  have hj := h j
  by_cases hji : j = i
  · subst hji
    rw [hw, if_neg (by simp), sub_zero] at hj
    rw [Function.update_self, if_pos rfl, sub_right_comm, ← wrap32_sub, ← hj]
    decide
  · rw [Function.update_of_ne hji, hj, if_neg (by simp), if_neg (by simp [Ne.symm hji])]

omit [DecidableEq κ] in
/-- The store of 0 settles the word and forgets the parties that share the lock. -/
lemma unlock_write {i : ℕ} (h : LockLedger locks (some i) held lost) :
    LockLedger (Function.update locks i 0) none held
      (Function.update lost i (countWith (· = some i) held)) := by
  intro j
  by_cases hji : j = i
  · subst hji
    simp [wrap32]
  · rw [Function.update_of_ne hji, Function.update_of_ne hji, h j,
      if_neg (by simp [Ne.symm hji]), if_neg (by simp)]

lemma lock_read (h : LockLedger locks owner held lost) {i : ℕ} {k : κ} (hk : held k = none) :
    LockLedger (Function.update locks i (wrap32 (locks i + 1))) owner
      (Function.update held k (some i)) lost := by
  intro j
  by_cases hji : j = i
  · subst hji
    rw [Function.update_self, h j, wrap32_add,
      countWith_update_enter (· = some j) held k (some j) (by simp [hk]) rfl]
    congr 1
    push_cast
    ring
  · rw [Function.update_of_ne hji, h j,
      countWith_update_same (· = some j) held k (some i) (by simp [hk, Ne.symm hji])]

lemma unlock_read (h : LockLedger locks owner held lost) {i : ℕ} {k : κ} (hk : held k = some i) :
    LockLedger (Function.update locks i (wrap32 (locks i - 1))) owner
      (Function.update held k none) lost := by
  intro j
  by_cases hji : j = i
  · subst hji
    have hcount := countWith_update_leave (· = some j) held k none hk (by simp)
    rw [Function.update_self, h j, wrap32_sub, ← hcount]
    congr 1
    push_cast
    ring
  · rw [Function.update_of_ne hji, h j,
      countWith_update_same (· = some j) held k none (by simp [hk, Ne.symm hji])]

omit [DecidableEq κ] in
/-- The word of a lock that nobody owns is 0 when as many parties share it as were forgotten. -/
lemma word_eq_zero_iff (h : LockLedger locks owner held lost) {i : ℕ} (ho : owner ≠ some i) :
    locks i = 0 ↔ (2 ^ 32 : ℤ) ∣ countWith (· = some i) held - lost i := by
  rw [h i, if_neg ho, sub_zero, wrap32_eq_zero_iff]

end LockLedger

end CodeC.Library
