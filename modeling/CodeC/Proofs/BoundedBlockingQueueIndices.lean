import CodeC.BoundedBlockingQueue
import CodeC.Library.RingFifo

/-!
# The indices of the C++ queue

The constructor allocates `max_elems` elements, one fewer than the ring of `capacity_` slots
uses. The values come out in order, but the indices stay inside the array only as long as no
more than `max_elems` values have ever been stored.
-/

namespace CodeC.BoundedBlockingQueue

open Library Library.Monitor Library.BoundedFifo Library.RingFifo

variable {T : Type} {n : ℕ}

def ringOf (q : Queue T) : RingQueue T := ⟨⟨q.capacity, q.outPos, q.inPos, q.data⟩, q.closed⟩

/-- The C++ queue is the ring queue, and its index arithmetic does not overflow. -/
structure Represents (q : Queue T) (r : RingQueue T) : Prop where
  eq : r = ringOf q
  in_lt : q.inPos < q.capacity
  out_lt : q.outPos < q.capacity
  capacity_lt : q.capacity < 2 ^ 64

def toSlotResult : Reply T → SlotResult T
  | ⟨.pushed ok, slot⟩ => (if ok then .accepted else .refused, slot)
  | ⟨.popped (some v), slot⟩ => (.taken v, slot)
  | ⟨.popped none, slot⟩ => (.refused, slot)
  | ⟨.unit, slot⟩ => (.closed, slot)

lemma pushBack_rel {q : Queue T} (h : Represents q (ringOf q)) (v : T) :
    Outcome.Rel Represents toSlotResult (pushBack q v) (ringBody (ringOf q) (.put v)) := by
  have hnext : (q.inPos + 1) % 2 ^ 64 % q.capacity = (q.inPos + 1) % q.capacity :=
    ring_next_of_lt h.in_lt h.capacity_lt
  have hpos : 0 < q.capacity := Nat.zero_lt_of_lt h.in_lt
  simp only [pushBack, full, ringBody, hnext]
  change Outcome.Rel _ _ _ (if q.closed = true then _ else _)
  by_cases hc : q.closed = true
  · rw [if_pos (by simp [hc]), if_pos hc, if_pos hc]
    exact .ret _ _ (Reply.mk (.pushed false) none) _ _ h
  · rw [if_neg hc, if_neg hc]
    by_cases hfull : (q.inPos + 1) % q.capacity = q.outPos
    · rw [if_neg (by simp [hc, hfull]), if_pos (show (ringOf q).ring.Full from hfull)]
      exact .wait _
    · rw [if_pos (by simp [hfull]), if_neg (show ¬(ringOf q).ring.Full from hfull)]
      exact .ret _ _ (Reply.mk (.pushed true) (some q.inPos)) _ _
        ⟨rfl, Nat.mod_lt _ hpos, h.out_lt, h.capacity_lt⟩

lemma popFront_rel {q : Queue T} (h : Represents q (ringOf q)) :
    Outcome.Rel Represents toSlotResult (popFront q) (ringBody (ringOf q) .get) := by
  have hnext : (q.outPos + 1) % 2 ^ 64 % q.capacity = (q.outPos + 1) % q.capacity :=
    ring_next_of_lt h.out_lt h.capacity_lt
  have hpos : 0 < q.capacity := Nat.zero_lt_of_lt h.in_lt
  simp only [popFront, empty, ringBody, hnext]
  change Outcome.Rel _ _ _ (if q.closed = true then _ else _)
  by_cases hc : q.closed = true
  · rw [if_pos (by simp [hc]), if_pos hc, if_pos hc]
    exact .ret _ _ (Reply.mk (.popped none) none) _ _ h
  · rw [if_neg hc, if_neg hc]
    by_cases hempty : q.inPos = q.outPos
    · rw [if_neg (by simp [hc, hempty]), if_pos (show (ringOf q).ring.Empty from hempty)]
      exact .wait _
    · rw [if_pos (by simp [hempty]), if_neg (show ¬(ringOf q).ring.Empty from hempty)]
      exact .ret _ _ (Reply.mk (.popped (some (q.data q.outPos))) (some q.outPos)) _ _
        ⟨rfl, h.in_lt, Nat.mod_lt _ hpos, h.capacity_lt⟩

lemma queueBody_rel {q : Queue T} {r : RingQueue T} (h : Represents q r) (op : Op T) :
    Outcome.Rel Represents toSlotResult (queueBody q op) (ringBody r op) := by
  obtain ⟨rfl, hin, hout, hcap⟩ := h
  cases op with
  | put v => exact pushBack_rel ⟨rfl, hin, hout, hcap⟩ v
  | get => exact popFront_rel ⟨rfl, hin, hout, hcap⟩
  | close => exact .ret _ _ (Reply.mk .unit none) _ _ ⟨rfl, hin, hout, hcap⟩

/-- The modulus exceeds the number of elements, also when `max_elems + 1` overflows. -/
lemma construct_spec {heap : ℕ → T} {maxElems : ℤ} {q : Queue T} (hpos : 1 ≤ maxElems)
    (hint : maxElems < 2 ^ 31) (hq : construct heap maxElems = some q) :
    q.elems = maxElems.toNat ∧ q.elems + 1 ≤ q.capacity ∧ Represents q (ringOf q) ∧
      Fresh q.capacity (ringOf q) := by
  simp only [construct, if_neg (show ¬maxElems < 0 by omega), Option.some.injEq] at hq
  have hcap : maxElems.toNat + 1 ≤ (wrap32 (maxElems + 1) % 2 ^ 64).toNat ∧
      (wrap32 (maxElems + 1) % 2 ^ 64).toNat < 2 ^ 64 := by
    by_cases hmax : maxElems + 1 < 2 ^ 31
    · rw [wrap32_of_range (by omega) hmax]
      omega
    · have he : maxElems = 2 ^ 31 - 1 := by omega
      subst he
      decide
  subst hq
  refine ⟨rfl, hcap.1, ⟨rfl, ?_, ?_, hcap.2⟩, rfl, rfl, rfl, rfl⟩
  · exact lt_of_lt_of_le (Nat.succ_pos _) hcap.1
  · exact lt_of_lt_of_le (Nat.succ_pos _) hcap.1

section logs

/-- The log of the C++ queue as a log of the ring queue. -/
def ringLog (l : List (Op T × Reply T)) : List (Op T × SlotResult T) :=
  l.map fun p => (p.1, toSlotResult p.2)

lemma sections_ringLog (es : List (Event (Op T) (Reply T) n)) :
    sections (es.map (Event.map toSlotResult)) = ringLog (sections es) :=
  sections_map toSlotResult es

lemma accepted_ringLog (l : List (Op T × Reply T)) :
    accepted (results (ringLog l)) = pushedValues l := by
  unfold accepted results ringLog pushedValues
  rw [List.filterMap_map]
  apply filterMap_translate
  rintro op ⟨value, slot⟩
  cases value with
  | pushed ok => cases op <;> cases ok <;> rfl
  | popped v => cases op <;> cases v <;> rfl
  | unit => cases op <;> rfl

lemma taken_ringLog (l : List (Op T × Reply T)) :
    taken (results (ringLog l)) = poppedValues l := by
  unfold taken results ringLog poppedValues
  rw [List.filterMap_map]
  apply filterMap_translate
  rintro op ⟨value, slot⟩
  cases value with
  | pushed ok => cases ok <;> rfl
  | popped v => cases v <;> rfl
  | unit => rfl

lemma toSlotResult_slot (r : Reply T) : (toSlotResult r).2 = r.slot := by
  obtain ⟨value, slot⟩ := r
  cases value with
  | pushed ok => rfl
  | popped v => cases v <;> rfl
  | unit => rfl

lemma putSlots_ringLog (l : List (Op T × Reply T)) : putSlots (ringLog l) = pushSlots l := by
  unfold putSlots ringLog pushSlots
  apply filterMap_translate
  intro op r
  cases op with
  | put v => exact toSlotResult_slot r
  | get => rfl
  | close => rfl

lemma getSlots_ringLog (l : List (Op T × Reply T)) : getSlots (ringLog l) = popSlots l := by
  unfold getSlots ringLog popSlots
  apply filterMap_translate
  intro op r
  cases op with
  | put v => rfl
  | get => exact toSlotResult_slot r
  | close => rfl

end logs

/-- What the calls have done so far stays inside the array and is a FIFO of at most `maxElems`
values. -/
structure WellBehaved (q : Queue T) (maxElems : ℤ) (l : List (Op T × Reply T)) : Prop where
  inside : ∀ k ∈ pushSlots l ++ popSlots l, k < q.elems
  order : poppedValues l <+: pushedValues l
  bound : ((pushedValues l).length : ℤ) ≤ (poppedValues l).length + maxElems

/-- The values leave in order and the `k`-th call of either kind accesses index `k` modulo the
capacity, in every interleaving. -/
lemma queue_rounds {heap : ℕ → T} {maxElems : ℤ} {q : Queue T} (hpos : 1 ≤ maxElems)
    (hint : maxElems < 2 ^ 31) (hq : construct heap maxElems = some q)
    {as : List (Action (Op T) n)} {t : State (Queue T) (Op T) Cond n}
    {es : List (Event (Op T) (Reply T) n)}
    (hrun : run (step queueBody) (start q) as = some (t, es)) :
    poppedValues (sections es) <+: pushedValues (sections es) ∧
    pushSlots (sections es) =
      (List.range (pushedValues (sections es)).length).map (· % q.capacity) ∧
    popSlots (sections es) =
      (List.range (poppedValues (sections es)).length).map (· % q.capacity) := by
  obtain ⟨_, hcap, hrep, hfresh⟩ := construct_spec hpos hint hq
  have hstart : State.Rel Represents (start q : State _ (Op T) Cond n) (start (ringOf q)) :=
    ⟨hrep, rfl⟩
  obtain ⟨r, hr, _⟩ := run_simulates (fun q r op h => queueBody_rel h op) hstart hrun
  have hrounds := rounds_run hfresh hr
  have hsucc : q.capacity - 1 + 1 = q.capacity := by omega
  rw [← hsucc] at hfresh
  obtain ⟨f, hf, _⟩ := fifo_run hfresh hr
  have horder := (history_run hf).order
  rw [sections_results, sections_ringLog, accepted_ringLog, taken_ringLog] at horder
  rw [sections_ringLog] at hrounds
  have hputs := hrounds.puts
  have hgets := hrounds.gets
  rw [putSlots_ringLog, accepted_ringLog] at hputs
  rw [getSlots_ringLog, taken_ringLog] at hgets
  exact ⟨horder ▸ List.prefix_append _ _, hputs, hgets⟩

/-- The index after the array is written exactly when one value too many is stored. -/
lemma elems_mem_pushSlots_iff {heap : ℕ → T} {maxElems : ℤ} {q : Queue T} (hpos : 1 ≤ maxElems)
    (hint : maxElems < 2 ^ 31) (hq : construct heap maxElems = some q)
    {as : List (Action (Op T) n)} {t : State (Queue T) (Op T) Cond n}
    {es : List (Event (Op T) (Reply T) n)}
    (hrun : run (step queueBody) (start q) as = some (t, es)) :
    q.elems ∈ pushSlots (sections es) ↔ q.elems < (pushedValues (sections es)).length := by
  obtain ⟨_, hcap, _, _⟩ := construct_spec hpos hint hq
  rw [(queue_rounds hpos hint hq hrun).2.1, List.mem_map]
  constructor
  · rintro ⟨j, hj, hjk⟩
    rw [← hjk]
    exact lt_of_le_of_lt (Nat.mod_le j q.capacity) (List.mem_range.mp hj)
  · intro hlt
    exact ⟨q.elems, List.mem_range.mpr hlt, Nat.mod_eq_of_lt hcap⟩

lemma wellBehaved_iff {heap : ℕ → T} {maxElems : ℤ} {q : Queue T} (hpos : 1 ≤ maxElems)
    (hint : maxElems < 2 ^ 31) (hq : construct heap maxElems = some q)
    {as : List (Action (Op T) n)} {t : State (Queue T) (Op T) Cond n}
    {es : List (Event (Op T) (Reply T) n)}
    (hrun : run (step queueBody) (start q) as = some (t, es)) :
    WellBehaved q maxElems (sections es) ↔ (pushedValues (sections es)).length ≤ q.elems := by
  obtain ⟨helems, hcap, _, _⟩ := construct_spec hpos hint hq
  obtain ⟨horder, hpush, hpop⟩ := queue_rounds hpos hint hq hrun
  constructor
  · intro h
    by_contra hmore
    have hmem := (elems_mem_pushSlots_iff hpos hint hq hrun).mpr (not_le.mp hmore)
    have hlt := h.inside q.elems (List.mem_append_left _ hmem)
    exact absurd hlt (lt_irrefl q.elems)
  · intro h
    have hlen := horder.length_le
    refine ⟨?_, horder, by omega⟩
    intro k hk
    have hindex : ∃ j < (pushedValues (sections es)).length, j % q.capacity = k := by
      rw [hpush, hpop, ← List.map_append, List.mem_map] at hk
      obtain ⟨j, hj, hjk⟩ := hk
      refine ⟨j, ?_, hjk⟩
      rcases List.mem_append.mp hj with hj | hj
      · exact List.mem_range.mp hj
      · exact lt_of_lt_of_le (List.mem_range.mp hj) hlen
    obtain ⟨j, hj, rfl⟩ := hindex
    exact lt_of_le_of_lt (Nat.mod_le j q.capacity) (by omega)

/-- The action is not a `push_back` that stores its value after the end of the array. -/
def StoresInside (s : State (Queue T) (Op T) Cond n) (a : Action (Op T) n) : Prop :=
  ∀ v, running s a = some (.put v) → s.obj.closed = false → full s.obj = false →
    s.obj.inPos ≠ s.obj.elems

/-- Exactly the stores of `push_back` are logged as written indices. -/
lemma body_pushSlots {q q' : Queue T} {op : Op T} {r : Reply T} {signal : Option Cond}
    {broadcasts : List Cond} (h : queueBody q op = .ret q' r signal broadcasts) :
    q'.elems = q.elems ∧ (q.elems ∉ pushSlots [(op, r)] ↔
      ∀ v, op = .put v → q.closed = false → full q = false → q.inPos ≠ q.elems) := by
  cases op with
  | put v =>
    simp only [queueBody, pushBack] at h
    by_cases hc : q.closed = true
    · simp only [hc, Bool.true_or, if_true] at h
      cases h
      simp [pushSlots, hc]
    · by_cases hf : full q = true
      · simp [hc, hf] at h
      · simp only [hc, hf, Bool.not_false, Bool.or_true, if_true, Bool.false_eq_true, if_false] at h
        cases h
        refine ⟨rfl, ?_⟩
        simp only [pushSlots, List.filterMap_cons, List.filterMap_nil, List.mem_singleton]
        constructor
        · intro hne _ _ _ _ heq
          exact hne heq.symm
        · intro hne heq
          exact hne v rfl (by simpa using hc) (by simpa using hf) heq.symm
  | get =>
    have hkeep : q'.elems = q.elems := by
      simp only [queueBody, popFront] at h
      by_cases hc : q.closed = true
      · simp only [hc, Bool.true_or, if_true] at h
        cases h
        rfl
      · by_cases he : empty q = true
        · simp [hc, he] at h
        · simp only [hc, he, Bool.not_false, Bool.or_true, if_true, Bool.false_eq_true,
            if_false] at h
          cases h
          rfl
    exact ⟨hkeep, by simp [pushSlots]⟩
  | close =>
    cases h
    exact ⟨rfl, by simp [pushSlots]⟩

/-- The steps of a run stay inside the array when no logged write is after its end. -/
lemma stepsMeet_storesInside_iff {s t : State (Queue T) (Op T) Cond n}
    {as : List (Action (Op T) n)} {es : List (Event (Op T) (Reply T) n)}
    (hrun : run (step queueBody) s as = some (t, es)) :
    StepsMeet (step queueBody) StoresInside s as ↔ s.obj.elems ∉ pushSlots (sections es) := by
  induction as generalizing s es with
  | nil =>
    simp only [run_nil, Option.some.injEq, Prod.mk.injEq] at hrun
    obtain ⟨rfl, rfl⟩ := hrun
    simp [StepsMeet, sections, pushSlots]
  | cons a as ih =>
    obtain ⟨u, e, f, hu, hr, rfl⟩ := (run_cons_iff (step queueBody) s t a as es).mp hrun
    have hone : u.obj.elems = s.obj.elems ∧
        (StoresInside s a ↔ s.obj.elems ∉ pushSlots (sections e)) := by
      rcases step_object hu with ⟨hobj, hnone, hwait⟩ | ⟨op, r, sig, bs, hop, hbody, hone⟩
      · rw [hobj, hnone]
        refine ⟨rfl, iff_of_true ?_ (by simp [pushSlots])⟩
        intro v hv hopen hroom
        obtain ⟨c, hc⟩ := hwait _ hv
        simp [queueBody, pushBack, hopen, hroom] at hc
      · rw [hone]
        obtain ⟨hkeep, hiff⟩ := body_pushSlots hbody
        refine ⟨hkeep, ?_⟩
        rw [hiff]
        unfold StoresInside
        simp only [hop, Option.some.injEq]
    have hmeet : StepsMeet (step queueBody) StoresInside s (a :: as) ↔
        StoresInside s a ∧ StepsMeet (step queueBody) StoresInside u as := by
      constructor
      · intro h
        exact ⟨h.1, h.2 u e hu⟩
      · intro h
        exact stepsMeet_cons hu h.1 h.2
    have hsplit : pushSlots (sections (e ++ f)) = pushSlots (sections e) ++ pushSlots (sections f) := by
      rw [sections_append]
      exact List.filterMap_append
    rw [hmeet, ih hr, hone.1, hone.2, hsplit, List.mem_append, not_or]

/-- The queue is well behaved in all the states that an interleaving visits if and only if no
`push_back` stores a value when `in_` has reached the number of elements, which is to say that
at most `max_elems` values are stored, however many of them are taken out again. -/
theorem wellBehaved_throughout_iff_storesInside (heap : ℕ → T) (maxElems : ℤ) (q : Queue T)
    (hpos : 1 ≤ maxElems) (hint : maxElems < 2 ^ 31) (hq : construct heap maxElems = some q)
    (as : List (Action (Op T) n)) (t : State (Queue T) (Op T) Cond n)
    (es : List (Event (Op T) (Reply T) n))
    (hrun : run (step queueBody) (start q) as = some (t, es)) :
    ((∀ as₁ as₂ s es₁, as = as₁ ++ as₂ → run (step queueBody) (start q) as₁ = some (s, es₁) →
      WellBehaved q maxElems (sections es₁)) ↔
      StepsMeet (step queueBody) StoresInside (start q) as) ∧
    (StepsMeet (step queueBody) StoresInside (start q) as ↔
      (pushedValues (sections es)).length ≤ q.elems) := by
  have hcount : StepsMeet (step queueBody) StoresInside (start q) as ↔
      (pushedValues (sections es)).length ≤ q.elems := by
    rw [stepsMeet_storesInside_iff hrun]
    change q.elems ∉ pushSlots (sections es) ↔ _
    rw [elems_mem_pushSlots_iff hpos hint hq hrun, not_lt]
  refine ⟨?_, hcount⟩
  rw [hcount]
  constructor
  · intro h
    exact (wellBehaved_iff hpos hint hq hrun).mp (h as [] t es (List.append_nil as).symm hrun)
  · intro h as₁ as₂ s es₁ has hrun₁
    apply (wellBehaved_iff hpos hint hq hrun₁).mpr
    rw [has, run_append_iff] at hrun
    obtain ⟨s', e, f, hs, _, rfl⟩ := hrun
    rw [hrun₁] at hs
    cases hs
    unfold pushedValues at h ⊢
    rw [sections_append, List.filterMap_append, List.length_append] at h
    omega

/-- One value is pushed, popped, and a second one is pushed. -/
def refillRun (t : Fin n) : List (Action (Op ℕ) n) :=
  [.call t (.put 5) none, .call t .get none, .call t (.put 6) none]

theorem refill_writes_outside_array :
    ∃ (q : Queue ℕ) (t : State (Queue ℕ) (Op ℕ) Cond 1) (es : List (Event (Op ℕ) (Reply ℕ) 1)),
      construct (fun _ => 0) 1 = some q ∧
      run (step queueBody) (start q) (refillRun 0) = some (t, es) ∧
      q.elems = 1 ∧ pushSlots (sections es) = [0, 1] ∧
      ¬∀ k ∈ pushSlots (sections es) ++ popSlots (sections es), k < q.elems :=
  ⟨_, _, _, rfl, rfl, rfl, rfl, by decide⟩

def oneValueRun (t : Fin n) : List (Action (Op ℕ) n) :=
  [.call t (.put 5) none, .call t .get none]

theorem wellBehaved_throughout_one_value :
    ∃ (q : Queue ℕ) (t : State (Queue ℕ) (Op ℕ) Cond 1) (es : List (Event (Op ℕ) (Reply ℕ) 1)),
      construct (fun _ => 0) 1 = some q ∧
      run (step queueBody) (start q) (oneValueRun 0) = some (t, es) ∧
      poppedValues (sections es) = [5] ∧
      StepsMeet (step queueBody) StoresInside (start q) (oneValueRun (0 : Fin 1)) :=
  ⟨_, _, _, rfl, rfl, rfl,
    (wellBehaved_throughout_iff_storesInside (fun _ => 0) 1 _ (by decide) (by decide) rfl
      (oneValueRun 0) _ _ rfl).2.mpr (by decide)⟩

end CodeC.BoundedBlockingQueue
