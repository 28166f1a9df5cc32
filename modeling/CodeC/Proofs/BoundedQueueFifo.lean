import CodeC.BoundedQueue
import CodeC.Library.RingFifo

/-!
# The C queue is a blocking FIFO

Without overflow the critical sections of the C queue are those of a ring queue, so every
interleaving is one of the blocking list of at most `size` items.
-/

namespace CodeC.BoundedQueue

open Library Library.Monitor Library.BoundedFifo Library.RingFifo

variable {α : Type} {n : ℕ}

def ringOf (q : Queue α) : RingQueue α := ⟨⟨q.size, q.outPos, q.inPos, q.data⟩, q.closed⟩

/-- The C queue is the ring queue, and its index arithmetic does not overflow. -/
structure Represents (q : Queue α) (r : RingQueue α) : Prop where
  eq : r = ringOf q
  in_lt : q.inPos < q.size
  out_lt : q.outPos < q.size
  size_lt : q.size < 2 ^ 64

def toSlotResult : Reply α → SlotResult α
  | ⟨.code c, slot⟩ => (if c = 0 then .accepted else .refused, slot)
  | ⟨.item x, slot⟩ => (.taken x, slot)
  | ⟨.null, slot⟩ => (.refused, slot)
  | ⟨.unit, slot⟩ => (.closed, slot)

lemma queuePut_rel {q : Queue α} (h : Represents q (ringOf q)) (x : α) :
    Outcome.Rel Represents toSlotResult (queuePut q x) (ringBody (ringOf q) (.put x)) := by
  have hnext := ring_next_of_lt h.in_lt h.size_lt
  have hpos : 0 < q.size := Nat.zero_lt_of_lt h.in_lt
  simp only [queuePut, ringBody]
  change Outcome.Rel _ _ _ (if q.closed = true then _ else _)
  by_cases hc : q.closed = true
  · rw [if_pos hc, if_pos hc]
    exact .ret _ _ (Reply.mk (.code (-1)) none) _ _ h
  · rw [if_neg hc, if_neg hc, hnext]
    by_cases hfull : (q.inPos + 1) % q.size = q.outPos
    · rw [if_neg (not_not.mpr hfull), if_pos (show (ringOf q).ring.Full from hfull)]
      exact .wait _
    · rw [if_pos hfull, if_neg (show ¬(ringOf q).ring.Full from hfull)]
      exact .ret _ _ (Reply.mk (.code 0) (some q.inPos)) _ _
        ⟨rfl, Nat.mod_lt _ hpos, h.out_lt, h.size_lt⟩

lemma queueGet_rel {q : Queue α} (h : Represents q (ringOf q)) :
    Outcome.Rel Represents toSlotResult (queueGet q) (ringBody (ringOf q) .get) := by
  have hnext := ring_next_of_lt h.out_lt h.size_lt
  have hpos : 0 < q.size := Nat.zero_lt_of_lt h.in_lt
  simp only [queueGet, ringBody]
  change Outcome.Rel _ _ _ (if q.closed = true then _ else _)
  by_cases hc : q.closed = true
  · rw [if_pos hc, if_pos hc]
    exact .ret _ _ (Reply.mk .null none) _ _ h
  · rw [if_neg hc, if_neg hc, hnext]
    by_cases hempty : q.inPos = q.outPos
    · rw [if_neg (not_not.mpr hempty), if_pos (show (ringOf q).ring.Empty from hempty)]
      exact .wait _
    · rw [if_pos hempty, if_neg (show ¬(ringOf q).ring.Empty from hempty)]
      exact .ret _ _ (Reply.mk (.item (q.data q.outPos)) (some q.outPos)) _ _
        ⟨rfl, h.in_lt, Nat.mod_lt _ hpos, h.size_lt⟩

lemma queueBody_rel {q : Queue α} {r : RingQueue α} (h : Represents q r) (op : Op α) :
    Outcome.Rel Represents toSlotResult (queueBody q op) (ringBody r op) := by
  obtain ⟨rfl, hin, hout, hsize⟩ := h
  cases op with
  | put x => exact queuePut_rel ⟨rfl, hin, hout, hsize⟩ x
  | get => exact queueGet_rel ⟨rfl, hin, hout, hsize⟩
  | close => exact .ret _ _ (Reply.mk .unit none) _ _ ⟨rfl, hin, hout, hsize⟩

/-- A successful `queue_init` has allocated the slots that fit in the requested bytes. -/
lemma queueInit_ok {malloc : ℕ → Option (ℕ → α)} {q₀ q : Queue α} {size : ℕ}
    (hinit : queueInit malloc (some q₀) size = (0, some q)) :
    0 < size ∧ ∃ data, malloc (requestedBytes size) = some data ∧
      q = ⟨(size + 1) % 2 ^ 64, 0, 0, false, requestedBytes size / pointerSize, data⟩ := by
  have hbytes : pointerSize * ((size + 1) % 2 ^ 64) % 2 ^ 64 = requestedBytes size := rfl
  simp only [queueInit, hbytes] at hinit
  by_cases hzero : size = 0
  · simp [hzero] at hinit
  · rw [if_neg hzero] at hinit
    cases hmalloc : malloc (requestedBytes size) with
    | none => simp only [hmalloc, Prod.mk.injEq, reduceCtorEq, false_and] at hinit
    | some data =>
      simp only [hmalloc, Prod.mk.injEq, Option.some.injEq, true_and] at hinit
      exact ⟨Nat.pos_of_ne_zero hzero, data, rfl, hinit.symm⟩

/-- `queue_init` leaves an empty open queue of `size + 1` slots unless this number overflows. -/
lemma queueInit_spec {malloc : ℕ → Option (ℕ → α)} {q₀ q : Queue α} {size : ℕ}
    (hinit : queueInit malloc (some q₀) size = (0, some q)) (hsize : size + 1 < 2 ^ 64) :
    Represents q (ringOf q) ∧ Fresh (size + 1) (ringOf q) := by
  obtain ⟨-, data, -, rfl⟩ := queueInit_ok hinit
  rw [Nat.mod_eq_of_lt hsize]
  constructor
  · exact ⟨rfl, Nat.succ_pos size, Nat.succ_pos size, hsize⟩
  · exact ⟨rfl, rfl, rfl, rfl⟩

/-- When `size + 1` slots have been allocated the size has not overflowed. -/
lemma size_lt_of_slots {malloc : ℕ → Option (ℕ → α)} {q₀ q : Queue α} {size : ℕ}
    (hinit : queueInit malloc (some q₀) size = (0, some q)) (hslots : q.slots = size + 1) :
    size + 1 < 2 ^ 64 := by
  obtain ⟨-, data, -, rfl⟩ := queueInit_ok hinit
  simp only [requestedBytes, pointerSize] at hslots
  omega

section logs

/-- The log of the C queue as a log of the ring queue. -/
def ringLog (l : List (Op α × Reply α)) : List (Op α × SlotResult α) :=
  l.map fun p => (p.1, toSlotResult p.2)

lemma sections_ringLog (es : List (Event (Op α) (Reply α) n)) :
    sections (es.map (Event.map toSlotResult)) = ringLog (sections es) :=
  sections_map toSlotResult es

lemma accepted_ringLog (l : List (Op α × Reply α)) :
    accepted (results (ringLog l)) = putItems l := by
  unfold accepted results ringLog putItems
  rw [List.filterMap_map]
  apply filterMap_translate
  rintro op ⟨value, slot⟩
  cases op with
  | put x =>
    cases value with
    | code c =>
      by_cases hc : c = 0
      · simp [toSlotResult, hc]
      · simp [toSlotResult, hc]
    | item y => rfl
    | null => rfl
    | unit => rfl
  | get => cases value <;> rfl
  | close => cases value <;> rfl

lemma taken_ringLog (l : List (Op α × Reply α)) : taken (results (ringLog l)) = gotItems l := by
  unfold taken results ringLog gotItems
  rw [List.filterMap_map]
  apply filterMap_translate
  rintro op ⟨value, slot⟩
  cases value with
  | code c =>
    by_cases hc : c = 0
    · simp [toSlotResult, hc]
    · simp [toSlotResult, hc]
  | item y => rfl
  | null => rfl
  | unit => rfl

lemma toSlotResult_slot (r : Reply α) : (toSlotResult r).2 = r.slot := by
  obtain ⟨value, slot⟩ := r
  cases value <;> rfl

lemma putSlots_ringLog (l : List (Op α × Reply α)) :
    RingFifo.putSlots (ringLog l) = putSlots l := by
  unfold RingFifo.putSlots ringLog putSlots
  apply filterMap_translate
  intro op r
  cases op with
  | put x => exact toSlotResult_slot r
  | get => rfl
  | close => rfl

lemma getSlots_ringLog (l : List (Op α × Reply α)) :
    RingFifo.getSlots (ringLog l) = gotSlots l := by
  unfold RingFifo.getSlots ringLog gotSlots
  apply filterMap_translate
  intro op r
  cases op with
  | put x => rfl
  | get => exact toSlotResult_slot r
  | close => rfl

end logs

/-- A run of the C queue as a run of the ring queue and as one of the list. -/
structure Refined (size : ℕ) (as : List (Action (Op α) n))
    (t : State (Queue α) (Op α) Cond n) (es : List (Event (Op α) (Reply α) n))
    (f : State (Fifo α) (Op α) Cond n) : Prop where
  represents : Represents t.obj (ringOf t.obj)
  stores : Stores size (ringOf t.obj) f.obj
  thread_eq : f.thread = t.thread
  fifo_run : run (step (body size)) (start ⟨[], false⟩) as =
    some (f, (es.map (Event.map toSlotResult)).map (Event.map Prod.fst))
  history : History size f.obj (results (ringLog (sections es)))
  rounds : Rounds (size + 1) (ringOf t.obj) (ringLog (sections es))

theorem queue_refined {malloc : ℕ → Option (ℕ → α)} {q₀ q : Queue α} {size : ℕ}
    (hinit : queueInit malloc (some q₀) size = (0, some q)) (hsize : size + 1 < 2 ^ 64)
    {as : List (Action (Op α) n)} {t : State (Queue α) (Op α) Cond n}
    {es : List (Event (Op α) (Reply α) n)}
    (hrun : run (step queueBody) (start q) as = some (t, es)) :
    ∃ f, Refined size as t es f := by
  obtain ⟨hrep, hfresh⟩ := queueInit_spec hinit hsize
  have hstart : State.Rel Represents (start q : State _ (Op α) Cond n) (start (ringOf q)) :=
    ⟨hrep, rfl⟩
  obtain ⟨r, hr, hrel, hthread⟩ := run_simulates (fun q r op h => queueBody_rel h op) hstart hrun
  obtain ⟨f, hf, hstores, hthread'⟩ := fifo_run hfresh hr
  have hobj := hrel.eq
  have hhist := history_run hf
  have hrounds := rounds_run hfresh hr
  rw [sections_ringLog] at hrounds
  rw [sections_results, sections_ringLog] at hhist
  rw [hobj] at hstores hrounds
  exact ⟨f, hobj ▸ hrel, hstores, hthread'.trans hthread, hf, hhist, hrounds⟩

/-- Every slot written or read is one of the `size + 1` slots of the ring. -/
lemma Refined.slots_lt {size : ℕ} {as : List (Action (Op α) n)}
    {t : State (Queue α) (Op α) Cond n} {es : List (Event (Op α) (Reply α) n)}
    {f : State (Fifo α) (Op α) Cond n} (h : Refined size as t es f) :
    ∀ k ∈ putSlots (sections es) ++ gotSlots (sections es), k < size + 1 := by
  intro k hk
  have hmod : ∃ j, k = j % (size + 1) := by
    rw [← putSlots_ringLog, ← getSlots_ringLog, h.rounds.puts, h.rounds.gets, ← List.map_append,
      List.mem_map] at hk
    obtain ⟨j, _, hj⟩ := hk
    exact ⟨j, hj.symm⟩
  obtain ⟨j, rfl⟩ := hmod
  exact Nat.mod_lt j (Nat.succ_pos size)

lemma Refined.closed_run {size : ℕ} {as : List (Action (Op α) n)}
    {t u : State (Queue α) (Op α) Cond n} {es fs : List (Event (Op α) (Reply α) n)}
    {f : State (Fifo α) (Op α) Cond n} (h : Refined size as t es f) (hclosed : t.obj.closed = true)
    {bs : List (Action (Op α) n)} (hrun : run (step queueBody) t bs = some (u, fs)) :
    putItems (sections fs) = [] ∧ gotItems (sections fs) = [] := by
  have hring : State.Rel Represents t ⟨ringOf t.obj, t.thread⟩ := ⟨h.represents, rfl⟩
  obtain ⟨r, hr, _⟩ := run_simulates (fun q r op h => queueBody_rel h op) hring hrun
  have hlist : State.Rel (Stores size) ⟨ringOf t.obj, t.thread⟩ f := ⟨h.stores, h.thread_eq⟩
  obtain ⟨g, hg, _⟩ := run_simulates (fun q f op h => ringBody_rel h op) hlist hr
  have hnone := BoundedFifo.closed_run (h.stores.closed_eq.trans hclosed) hg
  rw [sections_results, sections_ringLog, accepted_ringLog, taken_ringLog] at hnone
  exact hnone

lemma Refined.wakeInv {size : ℕ} {as : List (Action (Op α) n)} {t : State (Queue α) (Op α) Cond n}
    {es : List (Event (Op α) (Reply α) n)} {f : State (Fifo α) (Op α) Cond n}
    (h : Refined size as t es f) :
    WakeInv (fun q : Fifo α => q.items.length ≤ size) (fun q => q.closed = false) Op.cond
      (avail size) Op.Closes f ((es.map (Event.map toSlotResult)).map (Event.map Prod.fst)) := by
  have hempty : ([] : List α).length ≤ size := Nat.zero_le size
  exact wakeInv_run (q := ⟨[], false⟩) (body_resource size) hempty h.fifo_run

lemma closeReturned_of_returned {es : List (Event (Op α) (Reply α) n)} {u : Fin n}
    (hret : Event.returned u .close ∈ es) : CloseReturned Op.Closes
      ((es.map (Event.map toSlotResult)).map (Event.map (Prod.fst : SlotResult α → Result α))) := by
  refine ⟨u, .close, trivial, ?_⟩
  rw [List.map_map]
  exact List.mem_map_of_mem hret

lemma Refined.closed_of_returned {size : ℕ} {as : List (Action (Op α) n)}
    {t : State (Queue α) (Op α) Cond n} {es : List (Event (Op α) (Reply α) n)}
    {f : State (Fifo α) (Op α) Cond n} (h : Refined size as t es f) {u : Fin n}
    (hret : Event.returned u .close ∈ es) : t.obj.closed = true := by
  have hclosed := (h.wakeInv.closed_returned (closeReturned_of_returned hret)).1
  rw [h.stores.closed_eq] at hclosed
  exact Bool.eq_true_of_not_eq_false hclosed

/-- Only `queue_close` changes `closed`. -/
lemma queueBody_closed {q q' : Queue α} {op : Op α} {r : Reply α} {signal : Option Cond}
    {broadcasts : List Cond} (h : queueBody q op = .ret q' r signal broadcasts) :
    q'.closed = true ↔ q.closed = true ∨ op = .close := by
  cases op with
  | put x =>
    simp only [queueBody, queuePut] at h
    split_ifs at h <;> cases h <;> simp
  | get =>
    simp only [queueBody, queueGet] at h
    split_ifs at h <;> cases h <;> simp
  | close =>
    cases h
    simp

lemma closed_iff_section {q : Queue α} (hopen : q.closed = false) {as : List (Action (Op α) n)}
    {t : State (Queue α) (Op α) Cond n} {es : List (Event (Op α) (Reply α) n)}
    (hrun : run (step queueBody) (start q) as = some (t, es)) :
    t.obj.closed = true ↔ ∃ r, (.close, r) ∈ sections es := by
  refine run_object_invariant (fun q l => q.closed = true ↔ ∃ r, (.close, r) ∈ l) ?_ ?_ hrun
  · intro q l op q' r signal broadcasts hl hbody
    rw [queueBody_closed hbody, hl]
    simp only [List.mem_append, List.mem_singleton, Prod.mk.injEq, exists_or]
    refine or_congr_right ⟨fun hop => ⟨r, hop.symm, rfl⟩, fun hop => ?_⟩
    obtain ⟨_, hop, -⟩ := hop
    exact hop.symm
  · change q.closed = true ↔ _
    simp [hopen]

/-- Every interleaving of calls on a queue with `size + 1` allocated slots is first in, first
out and bounded by `size`. The `k`-th accepted item is put in slot `k % (size + 1)`, stays there
until it is taken, and a closed queue neither accepts nor returns items. The queue is closed from the
critical section of the first `queue_close` on. -/
theorem queue_is_bounded_fifo (malloc : ℕ → Option (ℕ → α)) (q₀ q : Queue α) (size : ℕ)
    (hinit : queueInit malloc (some q₀) size = (0, some q)) (hslots : q.slots = size + 1)
    (as : List (Action (Op α) n)) (t : State (Queue α) (Op α) Cond n)
    (es : List (Event (Op α) (Reply α) n))
    (hrun : run (step queueBody) (start q) as = some (t, es)) :
    gotItems (sections es) <+: putItems (sections es) ∧
    (putItems (sections es)).length ≤ (gotItems (sections es)).length + size ∧
    (∀ k ∈ putSlots (sections es) ++ gotSlots (sections es), k < size + 1) ∧
    putSlots (sections es) =
      (List.range (putItems (sections es)).length).map (· % (size + 1)) ∧
    (∀ k x, (gotItems (sections es)).length ≤ k → (putItems (sections es))[k]? = some x →
      t.obj.data (k % (size + 1)) = x ∧ k % (size + 1) ≠ t.obj.inPos) ∧
    (t.obj.closed = true → ∀ bs u fs, run (step queueBody) t bs = some (u, fs) →
      putItems (sections fs) = [] ∧ gotItems (sections fs) = []) ∧
    (t.obj.closed = true ↔ ∃ r, (.close, r) ∈ sections es) ∧
    ∀ u, .returned u .close ∈ es → t.obj.closed = true := by
  obtain ⟨f, h⟩ := queue_refined hinit (size_lt_of_slots hinit hslots) hrun
  have horder := h.history.order
  have hputs := h.rounds.puts
  rw [accepted_ringLog, taken_ringLog] at horder
  rw [putSlots_ringLog, accepted_ringLog] at hputs
  have hopen : q.closed = false := by
    obtain ⟨-, data, -, rfl⟩ := queueInit_ok hinit
    rfl
  refine ⟨?_, ?_, ?_, hputs, ?_, fun hclosed bs u fs hcont => h.closed_run hclosed hcont,
    closed_iff_section hopen hrun, fun u => h.closed_of_returned⟩
  · rw [horder]
    exact List.prefix_append _ _
  · rw [horder, List.length_append]
    exact Nat.add_le_add_left h.history.bound _
  · exact h.slots_lt
  · intro k x hk hx
    rw [← taken_ringLog] at hk
    rw [← accepted_ringLog] at hx
    exact slot_kept h.stores h.history h.rounds hk hx

def oneItemQueue : Queue ℕ := ⟨2, 0, 0, false, 2, fun _ => 0⟩

/-- Two puts and two gets of two threads on a queue for one item, the second put blocking, and then the
queue is closed. -/
def wrapAroundRun (putter getter : Fin n) : List (Action (Op ℕ) n) :=
  [.call putter (.put 5) none, .call putter (.put 6) none, .call getter .get (some putter),
    .resume putter none, .call getter .get none, .call putter .close none, .broadcast putter,
    .broadcast putter]

theorem queue_is_bounded_fifo_wraps_around :
    ∃ (t : State (Queue ℕ) (Op ℕ) Cond 2) (es : List (Event (Op ℕ) (Reply ℕ) 2)),
      queueInit (fun _ => some (fun _ => 0)) (some oneItemQueue) 1 = (0, some oneItemQueue) ∧
      run (step queueBody) (start oneItemQueue) (wrapAroundRun 0 1) = some (t, es) ∧
      gotItems (sections es) = [5, 6] ∧ gotItems (sections es) <+: putItems (sections es) ∧
      .returned 0 .close ∈ es ∧ t.obj.closed = true ∧
      ∀ bs u fs, run (step queueBody) t bs = some (u, fs) →
        putItems (sections fs) = [] ∧ gotItems (sections fs) = [] := by
  have h := queue_is_bounded_fifo (fun _ => some (fun _ => 0)) oneItemQueue oneItemQueue 1 rfl rfl
    (wrapAroundRun (0 : Fin 2) 1) _ _ rfl
  refine ⟨_, _, rfl, rfl, rfl, h.1, ?_, rfl, h.2.2.2.2.2.1 rfl⟩
  exact List.mem_of_getElem? (i := 9) rfl

end CodeC.BoundedQueue
