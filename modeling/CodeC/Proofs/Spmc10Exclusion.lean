import CodeC.Spmc10

/-!
# Producer and consumers of `spmc10.c` exclude each other

`Move` lists everything a step can do. The invariant `Inv` ties each counter `nconsumers[i]`
to the parties that hold entry `i`, for every number of consumers, the wrap-around of the
counter included.
-/

namespace CodeC.Spmc10
open Library

variable {n : ℕ}

/-- The entry a producer control point refers to. -/
def ProducerPc.entry : ProducerPc → Option ℕ
  | .idle => none
  | .scanning i => some i
  | .writing i => some i
  | .ending i => some i
  | .exited => none

/-- The entry a consumer has loaded from `read_pos` and not yet released or given up. -/
def ConsumerPc.target : ConsumerPc → Option ℕ
  | .idle => none
  | .allocating => none
  | .gotPos i => some i
  | .gotCount i _ => some i
  | .reading i => some i
  | .exited => none

/-- Every step of the system, with its guard and its effect. -/
inductive Move (debug : Bool) (s : State n) : Action n → State n → List (Event n) → Prop
  | alloc (hp : s.producer = .idle) :
    Move debug s .producer { s with producer := .scanning s.shm.writePos } [.allocStarted]
  | casWon (i : ℕ) (hp : s.producer = .scanning i) (hw : s.shm.nconsumers i = 0) :
    Move debug s .producer
      { s with
        shm := { s.shm with
          nconsumers := Function.update s.shm.nconsumers i (-1)
          size := if s.shm.size ≤ i then i + 1 else s.shm.size
          writePos := (i + 1) % s.shm.capacity }
        producer := .writing i } [.producerAcquired i]
  | casLost (i : ℕ) (hp : s.producer = .scanning i) (hw : s.shm.nconsumers i ≠ 0) :
    Move debug s .producer { s with producer := .scanning ((i + 1) % s.shm.capacity) }
      [.casFailed i]
  | write (i off : ℕ) (byte : UInt8) (hp : s.producer = .writing i) (ho : off < s.shm.bufSize) :
    Move debug s (.write off byte)
      { s with shm := { s.shm with
        buf := Function.update s.shm.buf i (Function.update (s.shm.buf i) off byte) } } []
  | allocEnd (i : ℕ) (hp : s.producer = .writing i) :
    Move debug s .producer
      { s with
        shm := { s.shm with nconsumers := Function.update s.shm.nconsumers i 0 }
        producer := if debug ∧ s.shm.nconsumers i ≠ -1 then .exited else .ending i }
      [.completed i (s.shm.buf i)]
  | publish (i : ℕ) (hp : s.producer = .ending i) :
    Move debug s .producer { s with shm := { s.shm with readPos := i }, producer := .idle }
      [.published i]
  | call (k : Fin n) (hk : s.consumer k = .idle) :
    Move debug s (.consumer k) (s.setConsumer k .allocating) []
  | loadPos (k : Fin n) (hk : s.consumer k = .allocating) :
    Move debug s (.consumer k) (s.setConsumer k (.gotPos s.shm.readPos))
      [.readPosLoaded k s.shm.readPos]
  | retry (k : Fin n) (i : ℕ) (hk : s.consumer k = .gotPos i) (hw : s.shm.nconsumers i < 0) :
    Move debug s (.consumer k) (s.setConsumer k .allocating) []
  | loadCount (k : Fin n) (i : ℕ) (hk : s.consumer k = .gotPos i)
      (hw : ¬s.shm.nconsumers i < 0) :
    Move debug s (.consumer k) (s.setConsumer k (.gotCount i (s.shm.nconsumers i))) []
  | acquire (k : Fin n) (i : ℕ) (old : ℤ) (hk : s.consumer k = .gotCount i old)
      (hw : s.shm.nconsumers i = old) :
    Move debug s (.consumer k)
      { s with
        shm := { s.shm with
          nconsumers := Function.update s.shm.nconsumers i (wrap32 (old + 1)) }
        consumer := Function.update s.consumer k (.reading i) } [.consumerAcquired k i]
  | lost (k : Fin n) (i : ℕ) (old : ℤ) (hk : s.consumer k = .gotCount i old)
      (hw : s.shm.nconsumers i ≠ old) :
    Move debug s (.consumer k) (s.setConsumer k .allocating) []
  | release (k : Fin n) (i : ℕ) (hk : s.consumer k = .reading i) :
    Move debug s (.consumer k)
      { s with
        shm := { s.shm with
          nconsumers := Function.update s.shm.nconsumers i (wrap32 (s.shm.nconsumers i - 1)) }
        consumer := Function.update s.consumer k
          (if wrap32 (s.shm.nconsumers i - 1) < 0 then .exited else .idle) }
      [.consumerReleased k i]

theorem step_move {debug : Bool} {s s' : State n} {a : Action n} {es : List (Event n)}
    (h : step debug s a = some (s', es)) : Move debug s a s' es := by
  cases a with
  | producer =>
    cases hp : s.producer with
    | idle =>
      simp only [step, hp, producerAlloc, Option.some.injEq, Prod.mk.injEq] at h
      obtain ⟨rfl, rfl⟩ := h
      exact .alloc hp
    | scanning i =>
      simp only [step, hp, producerAllocCas] at h
      by_cases hw : s.shm.nconsumers i = 0
      · rw [if_pos hw] at h
        obtain ⟨rfl, rfl⟩ := Prod.mk.inj (Option.some.inj h)
        exact .casWon i hp hw
      · rw [if_neg hw] at h
        obtain ⟨rfl, rfl⟩ := Prod.mk.inj (Option.some.inj h)
        exact .casLost i hp hw
    | writing i =>
      simp only [step, hp, producerAllocEnd] at h
      obtain ⟨rfl, rfl⟩ := Prod.mk.inj (Option.some.inj h)
      exact .allocEnd i hp
    | ending i =>
      simp only [step, hp, producerPublish] at h
      obtain ⟨rfl, rfl⟩ := Prod.mk.inj (Option.some.inj h)
      exact .publish i hp
    | exited => simp [step, hp] at h
  | write off byte =>
    cases hp : s.producer with
    | writing i =>
      simp only [step, hp] at h
      by_cases ho : off < s.shm.bufSize
      · rw [if_pos ho] at h
        obtain ⟨rfl, rfl⟩ := Prod.mk.inj (Option.some.inj h)
        exact .write i off byte hp ho
      · simp [ho] at h
    | idle => simp [step, hp] at h
    | scanning i => simp [step, hp] at h
    | ending i => simp [step, hp] at h
    | exited => simp [step, hp] at h
  | consumer k =>
    cases hk : s.consumer k with
    | idle =>
      simp only [step, hk] at h
      obtain ⟨rfl, rfl⟩ := Prod.mk.inj (Option.some.inj h)
      exact .call k hk
    | allocating =>
      simp only [step, hk, consumerAllocLoadPos] at h
      obtain ⟨rfl, rfl⟩ := Prod.mk.inj (Option.some.inj h)
      exact .loadPos k hk
    | gotPos i =>
      simp only [step, hk, consumerAllocLoadCount] at h
      by_cases hw : s.shm.nconsumers i < 0
      · rw [if_pos hw] at h
        obtain ⟨rfl, rfl⟩ := Prod.mk.inj (Option.some.inj h)
        exact .retry k i hk hw
      · rw [if_neg hw] at h
        obtain ⟨rfl, rfl⟩ := Prod.mk.inj (Option.some.inj h)
        exact .loadCount k i hk hw
    | gotCount i old =>
      simp only [step, hk, consumerAllocCas] at h
      by_cases hw : s.shm.nconsumers i = old
      · rw [if_pos hw] at h
        obtain ⟨rfl, rfl⟩ := Prod.mk.inj (Option.some.inj h)
        exact .acquire k i old hk hw
      · rw [if_neg hw] at h
        obtain ⟨rfl, rfl⟩ := Prod.mk.inj (Option.some.inj h)
        exact .lost k i old hk hw
    | reading i =>
      simp only [step, hk, consumerAllocEnd] at h
      obtain ⟨rfl, rfl⟩ := Prod.mk.inj (Option.some.inj h)
      exact .release k i hk
    | exited => simp [step, hk] at h

/-- The entry the producer holds. -/
def ProducerPc.held : ProducerPc → Option ℕ
  | .writing i => some i
  | _ => none

/-- The entry a consumer holds. -/
def ConsumerPc.held : ConsumerPc → Option ℕ
  | .reading i => some i
  | _ => none

@[simp] lemma producer_held_eq_some (pc : ProducerPc) (i : ℕ) :
    pc.held = some i ↔ pc = .writing i := by
  cases pc <;> simp [ProducerPc.held]

@[simp] lemma consumer_held_eq_some (pc : ConsumerPc) (i : ℕ) :
    pc.held = some i ↔ pc = .reading i := by
  cases pc <;> simp [ConsumerPc.held]

/-- The number of consumers that hold entry `i`. -/
def readers (s : State n) (i : ℕ) : ℕ := countWith (fun pc => pc.held = some i) s.consumer

/-- What holds in every reachable state. -/
structure Inv (s : State n) : Prop where
  capacity_pos : 0 < s.shm.capacity
  readPos_lt : s.shm.readPos < s.shm.capacity
  writePos_lt : s.shm.writePos < s.shm.capacity
  producer_lt : ∀ i, s.producer.entry = some i → i < s.shm.capacity
  consumer_lt : ∀ k i, (s.consumer k).target = some i → i < s.shm.capacity
  count_nonneg : ∀ k i old, s.consumer k = .gotCount i old → 0 ≤ old
  table : LockTable (· < s.shm.capacity) s.shm.nconsumers s.producer.held
    (ConsumerPc.held ∘ s.consumer)
  producer_runs : s.producer ≠ .exited
  consumer_runs : ∀ k, s.consumer k ≠ .exited

lemma spmcInit_spec {entryNum bufSize : ℤ} {seg shm : Spmc}
    (h : spmcInit entryNum bufSize true seg = some shm) :
    (shm.capacity : ℤ) = entryNum ∧ 1 ≤ entryNum ∧ entryNum ≤ 64 ∧
      shm.writePos = 0 ∧ shm.readPos = 0 ∧ ∀ i, i < shm.capacity → shm.nconsumers i = 0 := by
  unfold spmcInit entryNumMax at h
  by_cases hbad : entryNum ≤ 0 ∨ entryNum > 64 ∨ bufSize ≤ 0
  · simp [hbad] at h
  · simp only [hbad, if_false, if_true, Option.some.injEq] at h
    subst h
    refine ⟨by simp only; omega, by omega, by omega, rfl, rfl, ?_⟩
    intro i hi
    exact if_pos hi

lemma inv_start {entryNum bufSize : ℤ} {seg shm : Spmc}
    (h : spmcInit entryNum bufSize true seg = some shm) : Inv (start shm : State n) := by
  obtain ⟨hcap, hlo, -, hwrite, hread, hzero⟩ := spmcInit_spec h
  have hpos : 0 < shm.capacity := by omega
  refine ⟨hpos, ?_, ?_, ?_, ?_, ?_, LockTable.init hzero, ?_, ?_⟩
  · simpa [start, hread] using hpos
  · simpa [start, hwrite] using hpos
  · simp [start, ProducerPc.entry]
  · simp [start, ConsumerPc.target]
  · simp [start]
  · simp [start]
  · simp [start]

/-- A reader and the producer are never at the same entry. -/
lemma Inv.reader_excludes {s : State n} (h : Inv s) {k : Fin n} {i : ℕ}
    (hk : s.consumer k = .reading i) : s.producer ≠ .writing i := by
  intro hp
  have hi : i < s.shm.capacity := h.producer_lt i (by simp [hp, ProducerPc.entry])
  exact h.table.excludes hi ((producer_held_eq_some _ _).mpr hp) k
    ((consumer_held_eq_some _ _).mpr hk)

/-- One consumer moves and the counters change accordingly. -/
lemma inv_consumer {s : State n} (h : Inv s) (k : Fin n) (pc : ConsumerPc) (nconsumers : ℕ → ℤ)
    (htable : LockTable (· < s.shm.capacity) nconsumers s.producer.held
      (Function.update (ConsumerPc.held ∘ s.consumer) k pc.held))
    (hlt : ∀ i, pc.target = some i → i < s.shm.capacity)
    (hcount : ∀ i old, pc = .gotCount i old → 0 ≤ old) (hrun : pc ≠ .exited) :
    Inv { s with
      shm := { s.shm with nconsumers := nconsumers }
      consumer := Function.update s.consumer k pc } := by
  refine ⟨h.capacity_pos, h.readPos_lt, h.writePos_lt, h.producer_lt, ?_, ?_, ?_,
    h.producer_runs, ?_⟩
  · intro j i hj
    by_cases hjk : j = k
    · subst hjk
      exact hlt i (by simpa using hj)
    · exact h.consumer_lt j i (by simpa [hjk] using hj)
  · intro j i old hj
    by_cases hjk : j = k
    · subst hjk
      exact hcount i old (by simpa using hj)
    · exact h.count_nonneg j i old (by simpa [hjk] using hj)
  · rw [Function.comp_update]
    exact htable
  · intro j hj
    by_cases hjk : j = k
    · subst hjk
      exact hrun (by simpa using hj)
    · exact h.consumer_runs j (by simpa [hjk] using hj)

/-- A consumer moves between two control points at neither of which it holds an entry. -/
lemma inv_setConsumer {s : State n} (h : Inv s) (k : Fin n) (pc : ConsumerPc)
    (hold : (s.consumer k).held = none) (hnew : pc.held = none)
    (hlt : ∀ i, pc.target = some i → i < s.shm.capacity)
    (hcount : ∀ i old, pc = .gotCount i old → 0 ≤ old) (hrun : pc ≠ .exited) :
    Inv (s.setConsumer k pc) := by
  refine inv_consumer h k pc s.shm.nconsumers ?_ hlt hcount hrun
  have hsame : Function.update (ConsumerPc.held ∘ s.consumer) k pc.held =
      ConsumerPc.held ∘ s.consumer := by
    rw [hnew, ← hold]
    exact Function.update_eq_self k _
  rw [hsame]
  exact h.table

/-- The producer moves and the counters change accordingly. -/
lemma inv_producer {s : State n} (h : Inv s) (pc : ProducerPc) (nconsumers : ℕ → ℤ)
    (size writePos readPos : ℕ)
    (htable : LockTable (· < s.shm.capacity) nconsumers pc.held (ConsumerPc.held ∘ s.consumer))
    (hread : readPos < s.shm.capacity) (hwrite : writePos < s.shm.capacity)
    (hlt : ∀ i, pc.entry = some i → i < s.shm.capacity) (hrun : pc ≠ .exited) :
    Inv { s with
      shm := { s.shm with
        nconsumers := nconsumers, size := size, writePos := writePos, readPos := readPos }
      producer := pc } :=
  ⟨h.capacity_pos, hread, hwrite, hlt, h.consumer_lt, h.count_nonneg, htable, hrun,
    h.consumer_runs⟩

lemma Inv.table_of {s : State n} (h : Inv s) {o : Option ℕ} (ho : s.producer.held = o) :
    LockTable (· < s.shm.capacity) s.shm.nconsumers o (ConsumerPc.held ∘ s.consumer) :=
  ho ▸ h.table

lemma inv_allocEnd {debug : Bool} {s : State n} (h : Inv s) (i : ℕ)
    (hp : s.producer = .writing i) :
    Inv { s with
      shm := { s.shm with nconsumers := Function.update s.shm.nconsumers i 0 }
      producer := if debug ∧ s.shm.nconsumers i ≠ -1 then .exited else .ending i } := by
  have hi : i < s.shm.capacity := h.producer_lt i (by simp [hp, ProducerPc.entry])
  have hheld : s.producer.held = some i := (producer_held_eq_some _ _).mpr hp
  rw [if_neg (by simp [h.table.owner_word hi hheld])]
  refine inv_producer h (.ending i) _ s.shm.size _ _ (h.table_of hheld).unlock_write h.readPos_lt
    h.writePos_lt ?_ (by simp)
  intro j hj
  exact Option.some.inj hj ▸ hi

lemma inv_release {s : State n} (h : Inv s) (k : Fin n) (i : ℕ)
    (hk : s.consumer k = .reading i) :
    Inv { s with
      shm := { s.shm with
        nconsumers := Function.update s.shm.nconsumers i (wrap32 (s.shm.nconsumers i - 1)) }
      consumer := Function.update s.consumer k
        (if wrap32 (s.shm.nconsumers i - 1) < 0 then .exited else .idle) } := by
  have hi : i < s.shm.capacity := h.consumer_lt k i (by simp [hk, ConsumerPc.target])
  have hheld : (ConsumerPc.held ∘ s.consumer) k = some i := (consumer_held_eq_some _ _).mpr hk
  rw [if_neg (not_lt.mpr (h.table.unlock_read_nonneg hi hheld))]
  exact inv_consumer h k .idle _ (h.table.unlock_read hheld) (by simp [ConsumerPc.target])
    (by simp) (by simp)

theorem inv_move {debug : Bool} {s s' : State n} {a : Action n} {es : List (Event n)}
    (h : Inv s) (hm : Move debug s a s' es) : Inv s' := by
  cases hm with
  | alloc hp =>
    refine inv_producer h _ _ s.shm.size _ _ (h.table_of (by simp [hp, ProducerPc.held]))
      h.readPos_lt h.writePos_lt ?_ (by simp)
    intro i hi
    exact Option.some.inj hi ▸ h.writePos_lt
  | casWon i hp hw =>
    have hi : i < s.shm.capacity := h.producer_lt i (by simp [hp, ProducerPc.entry])
    refine inv_producer h (.writing i) _ _ _ _
      ((h.table_of (by simp [hp, ProducerPc.held])).lock_write hw) h.readPos_lt
      (Nat.mod_lt _ h.capacity_pos) ?_ (by simp)
    intro j hj
    exact Option.some.inj hj ▸ hi
  | casLost i hp hw =>
    refine inv_producer h _ _ s.shm.size _ _ (h.table_of (by simp [hp, ProducerPc.held]))
      h.readPos_lt h.writePos_lt ?_ (by simp)
    intro j hj
    exact Option.some.inj hj ▸ Nat.mod_lt _ h.capacity_pos
  | write i off byte hp ho =>
    exact ⟨h.capacity_pos, h.readPos_lt, h.writePos_lt, h.producer_lt, h.consumer_lt,
      h.count_nonneg, h.table, h.producer_runs, h.consumer_runs⟩
  | allocEnd i hp => exact inv_allocEnd h i hp
  | publish i hp =>
    have hi : i < s.shm.capacity := h.producer_lt i (by simp [hp, ProducerPc.entry])
    exact inv_producer h _ _ s.shm.size _ _ (h.table_of (by simp [hp, ProducerPc.held])) hi
      h.writePos_lt (by simp [ProducerPc.entry]) (by simp)
  | call k hk =>
    exact inv_setConsumer h k _ (by simp [hk, ConsumerPc.held]) rfl (by simp [ConsumerPc.target])
      (by simp) (by simp)
  | loadPos k hk =>
    refine inv_setConsumer h k _ (by simp [hk, ConsumerPc.held]) rfl ?_ (by simp) (by simp)
    intro i hi
    exact Option.some.inj hi ▸ h.readPos_lt
  | retry k i hk hw =>
    exact inv_setConsumer h k _ (by simp [hk, ConsumerPc.held]) rfl (by simp [ConsumerPc.target])
      (by simp) (by simp)
  | loadCount k i hk hw =>
    refine inv_setConsumer h k _ (by simp [hk, ConsumerPc.held]) rfl ?_ ?_ (by simp)
    · intro j hj
      exact h.consumer_lt k j (by simpa [hk, ConsumerPc.target] using hj)
    · intro j old hj
      simp only [ConsumerPc.gotCount.injEq] at hj
      exact hj.2 ▸ not_lt.mp hw
  | acquire k i old hk hw =>
    have hold : 0 ≤ s.shm.nconsumers i := hw ▸ h.count_nonneg k i old hk
    subst hw
    refine inv_consumer h k (.reading i) _
      (h.table.lock_read (by simp [hk, ConsumerPc.held]) hold) ?_ (by simp) (by simp)
    intro j hj
    exact h.consumer_lt k j (by simpa [hk, ConsumerPc.target] using hj)
  | lost k i old hk hw =>
    exact inv_setConsumer h k _ (by simp [hk, ConsumerPc.held]) rfl (by simp [ConsumerPc.target])
      (by simp) (by simp)
  | release k i hk => exact inv_release h k i hk

theorem inv_run {debug : Bool} {entryNum bufSize : ℤ} {seg shm : Spmc}
    (hinit : spmcInit entryNum bufSize true seg = some shm) {as : List (Action n)} {s : State n}
    {es : List (Event n)} (hrun : run (step debug) (start shm) as = some (s, es)) : Inv s :=
  run_invariant_state (step debug) Inv (fun _ _ _ _ h hs => inv_move h (step_move hs))
    (inv_start hinit) hrun

lemma capacity_move {debug : Bool} {s s' : State n} {a : Action n} {es : List (Event n)}
    (hm : Move debug s a s' es) : s'.shm.capacity = s.shm.capacity := by
  cases hm <;> rfl

lemma capacity_run {debug : Bool} {shm : Spmc} {as : List (Action n)} {s : State n}
    {es : List (Event n)} (hrun : run (step debug) (start shm) as = some (s, es)) :
    s.shm.capacity = shm.capacity :=
  run_invariant_state (step debug) (fun s => s.shm.capacity = shm.capacity)
    (fun _ _ _ _ h hs => (capacity_move (step_move hs)).trans h) rfl hrun

/-- In every reachable state the counter of an entry is -1 exactly while the producer holds
the entry and counts its consumers otherwise, so producer and consumers exclude each other
and neither sanity check of the source fires. -/
theorem nconsumers_tracks_holders (debug : Bool) (hn : n < 2 ^ 31) (entryNum bufSize : ℤ)
    (seg shm : Spmc) (hinit : spmcInit entryNum bufSize true seg = some shm)
    (as : List (Action n)) (s : State n) (es : List (Event n))
    (hrun : run (step debug) (start shm) as = some (s, es)) :
    (∀ i : ℕ, (i : ℤ) < entryNum →
      (s.shm.nconsumers i = -1 ↔ s.producer = .writing i) ∧
      (s.producer ≠ .writing i → s.shm.nconsumers i = readers s i)) ∧
    (∀ i k, s.producer = .writing i → s.consumer k ≠ .reading i) ∧
    s.producer ≠ .exited ∧ ∀ k, s.consumer k ≠ .exited := by
  have h := inv_run hinit hrun
  have hcap := capacity_run hrun
  have hentry := (spmcInit_spec hinit).1
  refine ⟨?_, ?_, h.producer_runs, h.consumer_runs⟩
  · intro i hi
    have hic : i < s.shm.capacity := by omega
    have hlt : readers s i < 2 ^ 31 := by
      have hle : readers s i ≤ n := by
        simpa [readers] using countWith_le_card (fun pc => pc.held = some i) s.consumer
      omega
    have hcount : s.producer ≠ .writing i → s.shm.nconsumers i = readers s i :=
      fun hp => (h.table i hic).eq_count (by simpa using hp) hlt
    refine ⟨⟨?_, ?_⟩, hcount⟩
    · intro hw
      by_contra hp
      have hc := hcount hp
      omega
    · intro hp
      exact h.table.owner_word hic ((producer_held_eq_some _ _).mpr hp)
  · intro i k hp hk
    exact h.reader_excludes hk hp

/-- The segment as the kernel hands it out. -/
def zeroSegment : Spmc := ⟨0, 0, 0, 0, 0, fun _ => 0, fun _ _ => 0⟩

theorem nconsumers_tracks_holders_one_consumer :
    ∃ (shm : Spmc) (s : State 1) (es : List (Event 1)),
      spmcInit 2 4 true zeroSegment = some shm ∧
      run (step true) (start shm) [.producer, .producer, .producer, .producer,
        .consumer 0, .consumer 0, .consumer 0, .consumer 0, .producer, .producer] = some (s, es) ∧
      s.producer = .writing 1 ∧ s.consumer 0 = .reading 0 ∧
      s.shm.nconsumers 1 = -1 ∧ s.shm.nconsumers 0 = readers s 0 := by
  refine ⟨_, _, _, rfl, rfl, rfl, rfl, ?_⟩
  have h := nconsumers_tracks_holders (n := 1) true (by norm_num) 2 4 zeroSegment _ rfl
    [.producer, .producer, .producer, .producer,
      .consumer 0, .consumer 0, .consumer 0, .consumer 0, .producer, .producer] _ _ rfl
  exact ⟨(h.1 1 (by norm_num)).1.mpr rfl, (h.1 0 (by norm_num)).2 (by decide)⟩

end CodeC.Spmc10
