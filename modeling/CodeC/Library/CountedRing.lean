import CodeC.Library.Ring

/-!
# Ring buffers with a counter

A ring of `size` slots that keeps the number of stored items beside its two positions. No slot is
sacrificed: the ring is full when the counter has reached `size`. `CountedRing.Holds r l` says that
the ring stores the queue `l`.
-/

namespace CodeC.Library

structure CountedRing (α : Type) where
  size : ℕ
  head : ℕ
  tail : ℕ
  count : ℕ
  data : ℕ → α

namespace CountedRing

variable {α : Type}

def push (r : CountedRing α) (x : α) : CountedRing α :=
  { r with
    data := Function.update r.data r.tail x
    tail := (r.tail + 1) % r.size
    count := r.count + 1 }

def pop (r : CountedRing α) : CountedRing α :=
  { r with head := (r.head + 1) % r.size, count := r.count - 1 }

/-- The ring stores exactly the items of `l`, the oldest first. -/
structure Holds (r : CountedRing α) (l : List α) : Prop where
  head_lt : r.head < r.size
  length_le : l.length ≤ r.size
  count_eq : r.count = l.length
  tail_eq : r.tail = (r.head + l.length) % r.size
  items : ∀ j x, l[j]? = some x → r.data ((r.head + j) % r.size) = x

lemma holds_nil {r : CountedRing α} (hsize : 0 < r.size) (hhead : r.head = 0) (htail : r.tail = 0)
    (hcount : r.count = 0) : r.Holds [] := by
  refine ⟨by omega, by simp, by simpa using hcount, ?_, by simp⟩
  simp [hhead, htail]

/-- The slot written next is not one of the slots in use. -/
lemma Holds.tail_ne {r : CountedRing α} {l : List α} (h : r.Holds l) (hroom : r.count ≠ r.size)
    {j : ℕ} (hj : j < l.length) : (r.head + j) % r.size ≠ r.tail := by
  have hlen : l.length < r.size := by
    have hle := h.length_le
    have hcount := h.count_eq
    omega
  rw [h.tail_eq]
  intro he
  have := ring_index_inj (hj.trans hlen) hlen he
  omega

lemma Holds.push {r : CountedRing α} {l : List α} (h : r.Holds l) (hroom : r.count ≠ r.size)
    (x : α) : (r.push x).Holds (l ++ [x]) := by
  have hle := h.length_le
  have hcount := h.count_eq
  refine ⟨h.head_lt, ?_, ?_, ?_, ?_⟩
  · change (l ++ [x]).length ≤ r.size
    rw [List.length_append, List.length_singleton]
    omega
  · change r.count + 1 = (l ++ [x]).length
    rw [List.length_append, List.length_singleton, hcount]
  · change (r.tail + 1) % r.size = (r.head + (l ++ [x]).length) % r.size
    rw [h.tail_eq, Nat.mod_add_mod, List.length_append, List.length_singleton, Nat.add_assoc]
  · intro j y hy
    change Function.update r.data r.tail x ((r.head + j) % r.size) = y
    by_cases hj : j < l.length
    · rw [Function.update_of_ne (h.tail_ne hroom hj)]
      rw [List.getElem?_append_left hj] at hy
      exact h.items j y hy
    · have hjl : j = l.length := by
        have hsome := (List.getElem?_eq_some_iff.mp hy).1
        simp only [List.length_append, List.length_singleton] at hsome
        omega
      subst hjl
      rw [← h.tail_eq, Function.update_self]
      simpa using hy

lemma Holds.pop {r : CountedRing α} {x : α} {l : List α} (h : r.Holds (x :: l)) :
    r.data r.head = x ∧ r.pop.Holds l := by
  have hcount := h.count_eq
  have hle := h.length_le
  rw [List.length_cons] at hcount hle
  refine ⟨?_, Nat.mod_lt _ (Nat.zero_lt_of_lt h.head_lt), ?_, ?_, ?_, ?_⟩
  · have h0 := h.items 0 x rfl
    rwa [Nat.add_zero, Nat.mod_eq_of_lt h.head_lt] at h0
  · change l.length ≤ r.size
    omega
  · change r.count - 1 = l.length
    omega
  · change r.tail = ((r.head + 1) % r.size + l.length) % r.size
    rw [ring_index_succ, h.tail_eq, List.length_cons]
  · intro j y hy
    change r.data (((r.head + 1) % r.size + j) % r.size) = y
    rw [ring_index_succ]
    exact h.items (j + 1) y (by simpa using hy)

end CountedRing

end CodeC.Library
