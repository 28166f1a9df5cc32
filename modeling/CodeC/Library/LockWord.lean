import CodeC.Library.Count
import Mathlib.Data.Int.Basic
import Mathlib.Tactic.Ring
import Mathlib.Tactic.NormNum

/-!
# Reader counts in a signed 32-bit lock word

A lock word holds -1 while one party has exclusive access and otherwise the number of
parties with shared access, stored in a signed 32-bit integer whose arithmetic wraps.
`LockTable` is the same for a table of lock words, one exclusive party and any number of
parties that hold at most one shared lock each.
-/

namespace CodeC.Library

/-- The value of a signed 32-bit integer after an addition or a subtraction. -/
def wrap32 (x : ℤ) : ℤ := Int.bmod x (2 ^ 32)

lemma wrap32_of_range {x : ℤ} (hl : -2 ^ 31 ≤ x) (hu : x < 2 ^ 31) : wrap32 x = x := by
  unfold wrap32
  apply Int.bmod_eq_of_le <;> norm_num <;> omega

lemma wrap32_add (x y : ℤ) : wrap32 (wrap32 x + y) = wrap32 (x + y) := Int.bmod_add_bmod

lemma wrap32_sub (x y : ℤ) : wrap32 (wrap32 x - y) = wrap32 (x - y) := Int.bmod_sub_bmod

/-- The representative between `-2 ^ 31` and `2 ^ 31` as a remainder -/
lemma wrap32_eq_emod (x : ℤ) : wrap32 x = (x + 2 ^ 31) % 2 ^ 32 - 2 ^ 31 := by
  rw [wrap32, Int.bmod_def]
  omega

/-- The word `w` represents exclusive access when `excl` holds, and `n` parties with shared
access otherwise. The word wraps to the most negative integer at `2 ^ 31` parties. -/
def LockWord (w : ℤ) (excl : Prop) (n : ℕ) : Prop :=
  (excl ∧ w = -1 ∧ n = 0) ∨ (¬excl ∧ n ≤ 2 ^ 31 ∧ w = wrap32 n)

lemma lockWord_free {excl : Prop} (h : ¬excl) : LockWord 0 excl 0 :=
  Or.inr ⟨h, by norm_num, by decide⟩

lemma lockWord_excl {excl : Prop} (h : excl) : LockWord (-1) excl 0 := Or.inl ⟨h, rfl, rfl⟩

lemma wrap32_count {n : ℕ} (h : n ≤ 2 ^ 31) :
    (n < 2 ^ 31 ∧ wrap32 n = n) ∨ (n = 2 ^ 31 ∧ wrap32 n = -2 ^ 31) := by
  rcases Nat.lt_or_ge n (2 ^ 31) with hn | hn
  · exact Or.inl ⟨hn, wrap32_of_range (by omega) (by exact_mod_cast hn)⟩
  · have he : n = 2 ^ 31 := le_antisymm h hn
    subst he
    exact Or.inr ⟨rfl, by decide⟩

/-- A word equal to zero is free: nobody has access. -/
lemma LockWord.eq_zero {w : ℤ} {excl : Prop} {n : ℕ} (h : LockWord w excl n) (hw : w = 0) :
    ¬excl ∧ n = 0 := by
  rcases h with ⟨-, hw', -⟩ | ⟨he, hn, hw'⟩
  · omega
  · refine ⟨he, ?_⟩
    rcases wrap32_count hn with ⟨-, hc⟩ | ⟨-, hc⟩ <;> omega

lemma LockWord.ne_zero {w : ℤ} {excl : Prop} {n : ℕ} (h : LockWord w excl n) (he : ¬excl)
    (hw : w ≠ 0) : 0 < n := by
  rcases h with ⟨he', -⟩ | ⟨-, -, hw'⟩
  · exact absurd he' he
  · rcases Nat.eq_zero_or_pos n with hn | hn
    · subst hn
      exact absurd (hw'.trans (by decide)) hw
    · exact hn

/-- Shared access may be taken exactly from a nonnegative word. -/
lemma LockWord.acquire {w : ℤ} {excl : Prop} {n : ℕ} (h : LockWord w excl n) (hw : 0 ≤ w) :
    LockWord (wrap32 (w + 1)) excl (n + 1) := by
  rcases h with ⟨-, hw', -⟩ | ⟨hx, hn, hw'⟩
  · omega
  · right
    rcases wrap32_count hn with ⟨hlt, hc⟩ | ⟨-, hc⟩
    · refine ⟨hx, hlt, ?_⟩
      rw [hw', hc]
      push_cast
      rfl
    · omega

lemma LockWord.not_excl_of_pos {w : ℤ} {excl : Prop} {n : ℕ} (h : LockWord w excl n)
    (hn : 0 < n) : ¬excl := by
  rcases h with ⟨-, -, hz⟩ | ⟨hx, -, -⟩
  · omega
  · exact hx

/-- Dropping shared access yields a nonnegative word, also from the wrapped one. -/
lemma LockWord.release {w : ℤ} {excl : Prop} {n : ℕ} (h : LockWord w excl (n + 1)) :
    LockWord (wrap32 (w - 1)) excl n ∧ 0 ≤ wrap32 (w - 1) := by
  rcases h with ⟨-, -, hz⟩ | ⟨hx, hn, hw⟩
  · omega
  · have hval : wrap32 (w - 1) = (n : ℤ) := by
      rcases wrap32_count hn with ⟨hlt, hc⟩ | ⟨heq, hc⟩
      · rw [hw, hc]
        rw [wrap32_of_range] <;> push_cast <;> omega
      · have hn' : (n : ℤ) = 2 ^ 31 - 1 := by omega
        rw [hw, hc, hn']
        decide
    refine ⟨Or.inr ⟨hx, by omega, ?_⟩, by omega⟩
    rw [hval, wrap32_of_range] <;> omega

/-- Below the wrap-around the word of a lock without exclusive access is the number. -/
lemma LockWord.eq_count {w : ℤ} {excl : Prop} {n : ℕ} (h : LockWord w excl n) (he : ¬excl)
    (hn : n < 2 ^ 31) : w = n := by
  rcases h with ⟨he', -⟩ | ⟨-, -, hw⟩
  · exact absurd he' he
  · rw [hw, wrap32_of_range] <;> omega

variable {κ : Type} [Fintype κ] [DecidableEq κ]

/-- Every word of the table in the domain `D` represents its holders: `owner` is the lock held
exclusively and `held k` the lock party `k` shares. -/
def LockTable (D : ℕ → Prop) (locks : ℕ → ℤ) (owner : Option ℕ) (held : κ → Option ℕ) : Prop :=
  ∀ i, D i → LockWord (locks i) (owner = some i) (countWith (· = some i) held)

namespace LockTable

variable {D : ℕ → Prop} {locks : ℕ → ℤ} {owner : Option ℕ} {held : κ → Option ℕ}

omit [DecidableEq κ] in
lemma init (hfree : ∀ i, D i → locks i = 0) : LockTable D locks none (fun _ : κ => none) := by
  intro i hi
  have hz : countWith (· = some i) (fun _ : κ => (none : Option ℕ)) = 0 := by
    rw [countWith_eq_zero_iff]
    simp
  rw [hfree i hi, hz]
  exact lockWord_free (by simp)

omit [DecidableEq κ] in
lemma excludes (h : LockTable D locks owner held) {i : ℕ} (hi : D i) (ho : owner = some i)
    (k : κ) : held k ≠ some i := by
  intro hk
  have hpos : 0 < countWith (· = some i) held := (countWith_pos_iff _ _).mpr ⟨k, hk⟩
  exact (h i hi).not_excl_of_pos hpos ho

omit [DecidableEq κ] in
lemma owner_word (h : LockTable D locks owner held) {i : ℕ} (hi : D i) (ho : owner = some i) :
    locks i = -1 := by
  rcases h i hi with ⟨-, hw, -⟩ | ⟨hn, -⟩
  · exact hw
  · exact absurd ho hn

omit [DecidableEq κ] in
/-- A word that is not free is held by its owner or shared. -/
lemma exists_held (h : LockTable D locks owner held) {i : ℕ} (hi : D i) (ho : owner ≠ some i)
    (hw : locks i ≠ 0) : ∃ k, held k = some i :=
  (countWith_pos_iff _ _).mp ((h i hi).ne_zero ho hw)

omit [DecidableEq κ] in
lemma lock_write (h : LockTable D locks none held) {i : ℕ} (hw : locks i = 0) :
    LockTable D (Function.update locks i (-1)) (some i) held := by
  intro j hj
  by_cases hji : j = i
  · subst hji
    rw [Function.update_self, ((h j hj).eq_zero hw).2]
    exact lockWord_excl rfl
  · rw [Function.update_of_ne hji]
    have he : (some i = some j) ↔ (none = some j) := by simp [Ne.symm hji]
    rw [he]
    exact h j hj

omit [DecidableEq κ] in
lemma unlock_write {i : ℕ} (h : LockTable D locks (some i) held) :
    LockTable D (Function.update locks i 0) none held := by
  intro j hj
  by_cases hji : j = i
  · subst hji
    have hz : countWith (· = some j) held = 0 := by
      rw [countWith_eq_zero_iff]
      exact h.excludes hj rfl
    rw [Function.update_self, hz]
    exact lockWord_free (by simp)
  · rw [Function.update_of_ne hji]
    have he : (none = some j) ↔ (some i = some j) := by simp [Ne.symm hji]
    rw [he]
    exact h j hj

lemma lock_read (h : LockTable D locks owner held) {i : ℕ} {k : κ} (hk : held k = none)
    (hw : 0 ≤ locks i) :
    LockTable D (Function.update locks i (wrap32 (locks i + 1))) owner
      (Function.update held k (some i)) := by
  intro j hj
  by_cases hji : j = i
  · subst hji
    rw [Function.update_self,
      countWith_update_enter (· = some j) held k (some j) (by simp [hk]) rfl]
    exact (h j hj).acquire hw
  · rw [Function.update_of_ne hji,
      countWith_update_same (· = some j) held k (some i) (by simp [hk, Ne.symm hji])]
    exact h j hj

lemma unlock_read (h : LockTable D locks owner held) {i : ℕ} {k : κ} (hk : held k = some i) :
    LockTable D (Function.update locks i (wrap32 (locks i - 1))) owner
      (Function.update held k none) := by
  intro j hj
  have hword := h j hj
  by_cases hji : j = i
  · subst hji
    rw [← countWith_update_leave (· = some j) held k none hk (by simp)] at hword
    rw [Function.update_self]
    exact hword.release.1
  · rw [Function.update_of_ne hji,
      countWith_update_same (· = some j) held k none (by simp [hk, Ne.symm hji])]
    exact hword

lemma unlock_read_nonneg (h : LockTable D locks owner held) {i : ℕ} (hi : D i) {k : κ}
    (hk : held k = some i) : 0 ≤ wrap32 (locks i - 1) := by
  have hword := h i hi
  rw [← countWith_update_leave (· = some i) held k none hk (by simp)] at hword
  exact hword.release.2

end LockTable

end CodeC.Library
