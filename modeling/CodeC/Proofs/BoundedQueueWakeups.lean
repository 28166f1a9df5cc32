import CodeC.Proofs.BoundedQueueFifo

/-!
# No wake-up of the C queue is lost

The threads of a run of the C queue are those of the blocking list, whose condition variables
count the items and the free places.
-/

namespace CodeC.BoundedQueue

open Library Library.Monitor Library.BoundedFifo Library.RingFifo

variable {α : Type} {n : ℕ}

lemma Refined.queued_eq {size : ℕ} {as : List (Action (Op α) n)}
    {t : State (Queue α) (Op α) Cond n} {es : List (Event (Op α) (Reply α) n)}
    {f : State (Fifo α) (Op α) Cond n} (h : Refined size as t es f) :
    queued t.obj = f.obj.items.length ∧ freeSlots t.obj = size - f.obj.items.length := by
  have hqueued : queued t.obj = f.obj.items.length := h.stores.holds.count_eq
  have hsize : t.obj.size = size + 1 := h.stores.size_eq
  refine ⟨hqueued, ?_⟩
  unfold freeSlots
  rw [hqueued, hsize]
  rfl

/-- Once `queue_close` has returned, nobody is blocked. -/
lemma Refined.close_returned {size : ℕ} {as : List (Action (Op α) n)}
    {t : State (Queue α) (Op α) Cond n} {es : List (Event (Op α) (Reply α) n)}
    {f : State (Fifo α) (Op α) Cond n} (h : Refined size as t es f) {u : Fin n}
    (hret : Event.returned u .close ∈ es) (v : Fin n) (op : Op α) (c : Cond) :
    t.thread v ≠ .waiting op c := by
  have hzero := (h.wakeInv.closed_returned (closeReturned_of_returned hret)).2 c
  rw [h.thread_eq] at hzero
  intro hv
  apply (countWith_eq_zero_iff _ t.thread).mp hzero v
  rw [hv]
  rfl

/-- While the queue is open, a getter stays blocked only if every queued item has a woken getter
to take it, and a putter only if every free slot has a woken putter to fill it. After
`queue_close` has returned no thread is or becomes blocked. -/
theorem queue_loses_no_wakeup (malloc : ℕ → Option (ℕ → α)) (q₀ q : Queue α) (size : ℕ)
    (hinit : queueInit malloc (some q₀) size = (0, some q)) (hsize : size + 1 < 2 ^ 64)
    (as : List (Action (Op α) n)) (t : State (Queue α) (Op α) Cond n)
    (es : List (Event (Op α) (Reply α) n))
    (hrun : run (step queueBody) (start q) as = some (t, es)) :
    (∀ v op c, t.thread v = .waiting op c ∨ t.thread v = .woken op c → op.cond = some c) ∧
    (t.obj.closed = false → 0 < blocked t.thread .notEmpty →
      queued t.obj ≤ awake t.thread .notEmpty) ∧
    (t.obj.closed = false → 0 < blocked t.thread .notFull →
      freeSlots t.obj ≤ awake t.thread .notFull) ∧
    (∀ u, Event.returned u .close ∈ es → ∀ bs w fs, run (step queueBody) t bs = some (w, fs) →
      ∀ v op c, w.thread v ≠ .waiting op c) := by
  obtain ⟨f, h⟩ := queue_refined hinit hsize hrun
  obtain ⟨hqueued, hfree⟩ := h.queued_eq
  have hwake := h.wakeInv
  have hserved := hwake.served
  rw [h.thread_eq, h.stores.closed_eq] at hserved
  refine ⟨?_, ?_, ?_, ?_⟩
  · intro v op c hv
    rw [← h.thread_eq] at hv
    rcases hv with hwaiting | hwoken
    · exact hwake.waiting_cond v op c hwaiting
    · exact hwake.woken_cond v op c hwoken
  · intro hopen hblocked
    rw [hqueued]
    exact hserved hopen .notEmpty hblocked
  · intro hopen hblocked
    rw [hfree]
    exact hserved hopen .notFull hblocked
  · intro u hret bs w fs hcont
    have hall : run (step queueBody) (start q) (as ++ bs) = some (w, es ++ fs) :=
      (run_append_iff _ _ _ _ _ _).mpr ⟨t, es, fs, hrun, hcont, rfl⟩
    obtain ⟨g, hg⟩ := queue_refined hinit hsize hall
    exact hg.close_returned (List.mem_append_left fs hret)

/-- Two getters block and a put wakes the first of them. -/
def wakeRun (first second putter : Fin n) : List (Action (Op ℕ) n) :=
  [.call first .get none, .call second .get none, .call putter (.put 7) (some first)]

theorem queue_loses_no_wakeup_two_getters :
    ∃ (t : State (Queue ℕ) (Op ℕ) Cond 3) (es : List (Event (Op ℕ) (Reply ℕ) 3)),
      run (step queueBody) (start oneItemQueue) (wakeRun 0 1 2) = some (t, es) ∧
      t.obj.closed = false ∧ blocked t.thread .notEmpty = 1 ∧ queued t.obj = 1 ∧
      queued t.obj ≤ awake t.thread .notEmpty :=
  ⟨_, _, rfl, rfl, by decide, rfl,
    (queue_loses_no_wakeup (fun _ => some (fun _ => 0)) oneItemQueue oneItemQueue 1 rfl (by decide)
      (wakeRun 0 1 2) _ _ rfl).2.1 rfl (by decide)⟩

end CodeC.BoundedQueue
