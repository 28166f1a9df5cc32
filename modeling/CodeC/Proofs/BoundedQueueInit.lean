import CodeC.Proofs.BoundedQueueFifo

/-!
# The arithmetic of `queue_init`

`size + 1` and its product with the size of a pointer are computed modulo `2 ^ 64`. Where the
product wraps, the block is smaller than the ring that `queue_put` and `queue_get` run through.
-/

namespace CodeC.BoundedQueue

open Library Library.Monitor Library.BoundedFifo

variable {α : Type}

/-- No critical section of a run takes a modulus by zero or reads or writes a slot outside the
block. -/
def StaysInside (q : Queue α) : Prop :=
  ∀ (n : ℕ) (as : List (Action (Op α) n)) (t : State (Queue α) (Op α) Cond n)
    (es : List (Event (Op α) (Reply α) n)), run (step queueBody) (start q) as = some (t, es) →
      t.obj.size ≠ 0 ∧ ∀ k ∈ putSlots (sections es) ++ gotSlots (sections es), k < q.slots

lemma requestedBytes_of_lt {size : ℕ} (hsize : size + 1 < 2 ^ 61) :
    requestedBytes size = pointerSize * (size + 1) := by
  unfold requestedBytes pointerSize
  omega

/-- The request covers the ring only if neither the sum nor the product has wrapped. -/
lemma size_lt_of_requestedBytes {size : ℕ} (hpos : 0 < size) (hlt : size < 2 ^ 64)
    (hring : 2 ≤ (size + 1) % 2 ^ 64)
    (hbytes : pointerSize * ((size + 1) % 2 ^ 64) ≤ requestedBytes size) : size + 1 < 2 ^ 61 := by
  unfold requestedBytes pointerSize at hbytes
  omega

lemma staysInside_of_lt {malloc : ℕ → Option (ℕ → α)} {q₀ q : Queue α} {size : ℕ}
    (hinit : queueInit malloc (some q₀) size = (0, some q)) (hsize : size + 1 < 2 ^ 61) :
    StaysInside q := by
  have hslots : q.slots = size + 1 := by
    obtain ⟨-, data, -, rfl⟩ := queueInit_ok hinit
    change requestedBytes size / pointerSize = size + 1
    rw [requestedBytes_of_lt hsize]
    exact Nat.mul_div_cancel_left _ (by decide)
  intro n as t es hrun
  obtain ⟨f, h⟩ := queue_refined hinit (by omega) hrun
  rw [hslots]
  exact ⟨Nat.ne_zero_of_lt h.represents.in_lt, h.slots_lt⟩

/-- For every size `queue_init` accepts, the ring has at least two slots, the requested block holds
all of them and every later call stays inside it, exactly when eight times `size + 1` is a
`size_t`. -/
theorem queue_init_covers_ring_iff (malloc : ℕ → Option (ℕ → α)) (q₀ q : Queue α) (size : ℕ)
    (hlt : size < 2 ^ 64) (hinit : queueInit malloc (some q₀) size = (0, some q)) :
    (2 ≤ q.size ∧ pointerSize * q.size ≤ requestedBytes size ∧ StaysInside q) ↔
      size + 1 < 2 ^ 61 := by
  obtain ⟨hpos, data, -, hq⟩ := queueInit_ok hinit
  have hring : q.size = (size + 1) % 2 ^ 64 := by rw [hq]
  rw [hring]
  apply Iff.intro
  · intro h
    exact size_lt_of_requestedBytes hpos hlt h.1 h.2.1
  · intro hsize
    rw [requestedBytes_of_lt hsize, Nat.mod_eq_of_lt (by omega)]
    exact ⟨by omega, Nat.le_refl _, staysInside_of_lt hinit hsize⟩

theorem queue_init_covers_ring_one :
    2 ≤ oneItemQueue.size ∧ pointerSize * oneItemQueue.size ≤ requestedBytes 1 ∧
      StaysInside oneItemQueue :=
  (queue_init_covers_ring_iff (fun _ => some (fun _ => 0)) oneItemQueue oneItemQueue 1 (by decide)
    rfl).mpr (by decide)

/-- The ring of `2 ^ 61` slots in a block of no bytes -/
def wrappedQueue : Queue ℕ := ⟨2 ^ 61, 0, 0, false, 0, fun _ => 0⟩

/-- With `size = 2 ^ 61 - 1` the product is zero, and the first item is put outside the block. With
`size = 2 ^ 64 - 1` the sum is zero. -/
theorem queue_init_wraps :
    (queueInit (fun _ => some (fun _ => 0)) (some oneItemQueue) (2 ^ 61 - 1) =
        (0, some wrappedQueue) ∧
      requestedBytes (2 ^ 61 - 1) = 0 ∧ ¬StaysInside wrappedQueue) ∧
    ∃ q, queueInit (fun _ => some (fun _ => 0)) (some oneItemQueue) (2 ^ 64 - 1) = (0, some q) ∧
      q.size = 0 := by
  refine ⟨⟨rfl, rfl, fun h => ?_⟩, _, rfl, rfl⟩
  have hput := (h 1 [.call 0 (.put 5) none] _ _ rfl).2 0 (by decide)
  exact absurd hput (by decide)

end CodeC.BoundedQueue
