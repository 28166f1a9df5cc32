import Mathlib.Data.Nat.ModEq
import Mathlib.Data.List.Basic
import Mathlib.Logic.Function.Basic

/-!
# Ring buffers with one sacrificed slot

A ring of `size` slots is written at `inPos` and read at `outPos`. It is empty when the two
positions agree and full when one more write would make them agree, so it stores at most
`size - 1` items. `Ring.Holds r l` says that the ring stores the queue `l`.
-/

namespace CodeC.Library

/-- Positions less than one lap apart are different slots. -/
lemma ring_index_inj {size start j l : ℕ} (hj : j < size) (hl : l < size)
    (h : (start + j) % size = (start + l) % size) : j = l :=
  Nat.ModEq.eq_of_lt_of_lt (Nat.ModEq.add_left_cancel' start h) hj hl

lemma ring_index_succ (size start j : ℕ) :
    ((start + 1) % size + j) % size = (start + (j + 1)) % size := by
  rw [Nat.mod_add_mod]
  congr 1
  omega

/-- The next slot in unsigned 64-bit arithmetic. -/
lemma ring_next_of_lt {k size : ℕ} (hk : k < size) (hsize : size < 2 ^ 64) :
    (k + 1) % 2 ^ 64 % size = (k + 1) % size := by
  rw [Nat.mod_eq_of_lt (show k + 1 < 2 ^ 64 by omega)]

structure Ring (α : Type) where
  size : ℕ
  outPos : ℕ
  inPos : ℕ
  data : ℕ → α

namespace Ring

variable {α : Type}

def Full (r : Ring α) : Prop := (r.inPos + 1) % r.size = r.outPos

def Empty (r : Ring α) : Prop := r.inPos = r.outPos

instance (r : Ring α) : Decidable r.Full := inferInstanceAs (Decidable (_ = _))

instance (r : Ring α) : Decidable r.Empty := inferInstanceAs (Decidable (_ = _))

/-- The number of stored items, read off the two positions. -/
def count (r : Ring α) : ℕ := (r.inPos + r.size - r.outPos) % r.size

def push (r : Ring α) (x : α) : Ring α :=
  { r with data := Function.update r.data r.inPos x, inPos := (r.inPos + 1) % r.size }

def pop (r : Ring α) : Ring α := { r with outPos := (r.outPos + 1) % r.size }

/-- The ring stores exactly the items of `l`, the oldest first. -/
structure Holds (r : Ring α) (l : List α) : Prop where
  out_lt : r.outPos < r.size
  length_lt : l.length < r.size
  in_eq : r.inPos = (r.outPos + l.length) % r.size
  items : ∀ j x, l[j]? = some x → r.data ((r.outPos + j) % r.size) = x

lemma holds_nil {r : Ring α} (hpos : 0 < r.size) (hin : r.inPos = 0) (hout : r.outPos = 0) :
    r.Holds [] := by
  refine ⟨by omega, hpos, ?_, by simp⟩
  simp [hin, hout]

lemma Holds.empty_iff {r : Ring α} {l : List α} (h : r.Holds l) : r.Empty ↔ l = [] := by
  unfold Empty
  rw [h.in_eq]
  constructor
  · intro he
    have he' : (r.outPos + l.length) % r.size = (r.outPos + 0) % r.size := by
      rw [he, Nat.add_zero, Nat.mod_eq_of_lt h.out_lt]
    have hz := ring_index_inj h.length_lt (Nat.zero_lt_of_lt h.out_lt) he'
    exact List.length_eq_zero_iff.mp hz
  · rintro rfl
    simp [Nat.mod_eq_of_lt h.out_lt]

lemma Holds.count_eq {r : Ring α} {l : List α} (h : r.Holds l) : r.count = l.length := by
  have hout := h.out_lt
  have hlen := h.length_lt
  unfold count
  rw [h.in_eq]
  by_cases hwrap : r.outPos + l.length < r.size
  · rw [Nat.mod_eq_of_lt hwrap]
    have he : r.outPos + l.length + r.size - r.outPos = l.length + r.size := by omega
    rw [he, Nat.add_mod_right, Nat.mod_eq_of_lt hlen]
  · have hmod : (r.outPos + l.length) % r.size = r.outPos + l.length - r.size := by
      rw [Nat.mod_eq_sub_mod (by omega), Nat.mod_eq_of_lt (by omega)]
    have he : r.outPos + l.length - r.size + r.size - r.outPos = l.length := by omega
    rw [hmod, he, Nat.mod_eq_of_lt hlen]

/-- The ring is full exactly when every slot but one is in use. -/
lemma Holds.full_iff {r : Ring α} {l : List α} (h : r.Holds l) :
    r.Full ↔ l.length + 1 = r.size := by
  have hpos : 0 < r.size := Nat.zero_lt_of_lt h.out_lt
  have hnext : (r.inPos + 1) % r.size = (r.outPos + (l.length + 1)) % r.size := by
    rw [h.in_eq, Nat.mod_add_mod]
    rfl
  unfold Full
  rw [hnext]
  constructor
  · intro hf
    by_contra hne
    have hlt : l.length + 1 < r.size := by
      have := h.length_lt
      omega
    have hf' : (r.outPos + (l.length + 1)) % r.size = (r.outPos + 0) % r.size := by
      rw [hf, Nat.add_zero, Nat.mod_eq_of_lt h.out_lt]
    have := ring_index_inj hlt hpos hf'
    omega
  · intro hf
    rw [hf, Nat.add_mod_right, Nat.mod_eq_of_lt h.out_lt]

/-- The slot written next is not one of the slots in use. -/
lemma Holds.in_ne {r : Ring α} {l : List α} (h : r.Holds l) {j : ℕ} (hj : j < l.length) :
    (r.outPos + j) % r.size ≠ r.inPos := by
  rw [h.in_eq]
  intro he
  have := ring_index_inj (hj.trans h.length_lt) h.length_lt he
  omega

lemma Holds.push {r : Ring α} {l : List α} (h : r.Holds l) (hfull : ¬r.Full) (x : α) :
    (r.push x).Holds (l ++ [x]) := by
  have hlen := h.length_lt
  have hroom : l.length + 1 < r.size := by
    have hne : l.length + 1 ≠ r.size := fun he => hfull (h.full_iff.mpr he)
    omega
  refine ⟨h.out_lt, by simpa [Ring.push] using hroom, ?_, ?_⟩
  · change (r.inPos + 1) % r.size = (r.outPos + (l ++ [x]).length) % r.size
    rw [h.in_eq, Nat.mod_add_mod, List.length_append]
    rfl
  · intro j y hy
    change Function.update r.data r.inPos x ((r.outPos + j) % r.size) = y
    by_cases hj : j < l.length
    · rw [Function.update_of_ne (h.in_ne hj)]
      rw [List.getElem?_append_left hj] at hy
      exact h.items j y hy
    · have hjl : j = l.length := by
        have hsome := (List.getElem?_eq_some_iff.mp hy).1
        simp only [List.length_append, List.length_singleton] at hsome
        omega
      subst hjl
      rw [← h.in_eq, Function.update_self]
      simpa using hy

lemma Holds.pop {r : Ring α} {x : α} {l : List α} (h : r.Holds (x :: l)) :
    r.data r.outPos = x ∧ r.pop.Holds l := by
  have hpos : 0 < r.size := Nat.zero_lt_of_lt h.out_lt
  refine ⟨?_, Nat.mod_lt _ hpos, ?_, ?_, ?_⟩
  · have h0 := h.items 0 x rfl
    rwa [Nat.add_zero, Nat.mod_eq_of_lt h.out_lt] at h0
  · have hlen := h.length_lt
    simp only [List.length_cons] at hlen
    change l.length < r.size
    omega
  · change r.inPos = ((r.outPos + 1) % r.size + l.length) % r.size
    rw [ring_index_succ, h.in_eq, List.length_cons]
  · intro j y hy
    change r.data (((r.outPos + 1) % r.size + j) % r.size) = y
    rw [ring_index_succ]
    exact h.items (j + 1) y (by simpa using hy)

end Ring

end CodeC.Library
