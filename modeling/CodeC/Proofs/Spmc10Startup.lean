import CodeC.Proofs.Spmc10History

/-!
# The start of a `spmc10.c` ring

`spmc_init` directs consumers to entry 0 before anything has been written, and `consumer_alloc`
looks at neither `size` nor at any other sign of a first message. Every entry a consumer obtains
has been written exactly in those runs in which no consumer succeeds before the producer's first
`producer_alloc_end`.
-/

namespace CodeC.Spmc10
open Library

variable {n : ℕ}

/-- When the step is a successful `consumer_alloc`, `producer_alloc_end` has released the entry
it returns before. -/
def ReturnsWritten (debug : Bool) (s : State n) (es : List (Event n)) (a : Action n) : Prop :=
  ∀ s' k i, step debug s a = some (s', [.consumerAcquired k i]) → ∃ content, .completed i content ∈ es

/-- When the step is a compare-exchange of `consumer_alloc` that succeeds, `producer_alloc_end`
has released some entry before. -/
def AfterFirstMessage (s : State n) (es : List (Event n)) (a : Action n) : Prop :=
  ∀ k i old, a = .consumer k → s.consumer k = .gotCount i old → s.shm.nconsumers i = old →
    ∃ j content, .completed j content ∈ es

lemma history_snoc (es : List (Event n)) (e : Event n) :
    history (es ++ [e]) = record (history es) e :=
  observe_append record History.empty es [e]

lemma mem_completed_of_inEntry {es : List (Event n)} {i : ℕ} (h : 0 < (history es).inEntry i) :
    ∃ content, .completed i content ∈ es := by
  induction es using List.reverseRecOn with
  | nil => simp [history, History.empty] at h
  | append_singleton es e ih =>
    rw [history_snoc] at h
    cases e with
    | completed j content =>
      by_cases hij : i = j
      · subst hij
        exact ⟨content, by simp⟩
      · obtain ⟨c, hc⟩ := ih (by simpa [record, hij] using h)
        exact ⟨c, by simp [hc]⟩
    | allocStarted => exact (ih h).imp fun c hc => by simp [hc]
    | casFailed j => exact (ih h).imp fun c hc => by simp [hc]
    | producerAcquired j => exact (ih h).imp fun c hc => by simp [hc]
    | published j => exact (ih h).imp fun c hc => by simp [hc]
    | readPosLoaded k j => exact (ih h).imp fun c hc => by simp [hc]
    | consumerAcquired k j => exact (ih h).imp fun c hc => by simp [hc]
    | consumerReleased k j => exact (ih h).imp fun c hc => by simp [hc]

lemma completed_pos_of_mem {es : List (Event n)} {i : ℕ} {content : ℕ → UInt8}
    (h : .completed i content ∈ es) : 0 < (history es).completed := by
  induction es using List.reverseRecOn with
  | nil => simp at h
  | append_singleton es e ih =>
    rw [history_snoc]
    rcases List.mem_append.mp h with hold | hnew
    · have hpos := ih hold
      cases e with
      | completed j c => exact Nat.succ_pos _
      | allocStarted => exact hpos
      | casFailed j => exact hpos
      | producerAcquired j => exact hpos
      | published j => exact hpos
      | readPosLoaded k j => exact hpos
      | consumerAcquired k j => exact hpos
      | consumerReleased k j => exact hpos
    · obtain rfl := List.mem_singleton.mp hnew
      exact Nat.succ_pos _

/-- The producer has not gone beyond its first attempt to write entry 0. -/
def AtFirstEntry (s : State n) : Prop :=
  (s.producer = .idle ∧ s.shm.writePos = 0) ∨ s.producer = .scanning 0 ∨ s.producer = .writing 0

/-- Up to the first completed message nobody holds an entry and the producer is at entry 0, so
the first message goes there. A position loaded before the first publication is 0. -/
structure Startup (s : State n) (h : History n) : Prop where
  none_held : h.completed = 0 → ∀ k, (s.consumer k).held = none
  at_first : h.completed = 0 → AtFirstEntry s
  first_written : 0 < h.completed → 0 < h.inEntry 0
  readPos_zero : h.published = 0 → s.shm.readPos = 0
  target_zero : ∀ k i, (s.consumer k).target = some i → h.loadedAt k = 0 → i = 0

lemma startup_start {entryNum bufSize : ℤ} {seg shm : Spmc}
    (hinit : spmcInit entryNum bufSize true seg = some shm) :
    Startup (start shm : State n) History.empty := by
  obtain ⟨-, -, -, hwrite, hread, -⟩ := spmcInit_spec hinit
  refine ⟨fun _ _ => rfl, fun _ => Or.inl ⟨rfl, hwrite⟩, ?_, fun _ => hread, ?_⟩
  · simp [History.empty]
  · simp [start, ConsumerPc.target]

/-- A consumer step that leaves the history as it is and aims at no new entry. -/
lemma startup_setConsumer {s : State n} {h : History n} (hs : Startup s h) (k : Fin n)
    (pc : ConsumerPc) (nconsumers : ℕ → ℤ)
    (hheld : h.completed = 0 → pc.held = none)
    (htarget : ∀ i, pc.target = some i → (s.consumer k).target = some i) :
    Startup { s with
      shm := { s.shm with nconsumers := nconsumers }
      consumer := Function.update s.consumer k pc } h := by
  refine ⟨?_, hs.at_first, hs.first_written, hs.readPos_zero, ?_⟩
  · intro hzero j
    by_cases hjk : j = k
    · subst hjk
      simpa using hheld hzero
    · simpa [hjk] using hs.none_held hzero j
  · intro j i hj
    by_cases hjk : j = k
    · subst hjk
      exact hs.target_zero j i (htarget i (by simpa using hj))
    · exact hs.target_zero j i (by simpa [hjk] using hj)

/-- A producer step that completes and publishes nothing. -/
lemma startup_setProducer {s : State n} {h : History n} (hs : Startup s h) (shm : Spmc)
    (pc : ProducerPc) (failedCas : ℕ) (hread : shm.readPos = s.shm.readPos)
    (hfirst : h.completed = 0 → AtFirstEntry { s with shm := shm, producer := pc }) :
    Startup { s with shm := shm, producer := pc } { h with failedCas := failedCas } :=
  ⟨hs.none_held, hfirst, hs.first_written, fun hpub => hread.trans (hs.readPos_zero hpub),
    hs.target_zero⟩

/-- Before the first message the counter of entry 0 is 0, since nobody holds the entry. -/
lemma Startup.first_free {s : State n} {h : History n} (hs : Startup s h) (hinv : Inv s)
    (hzero : h.completed = 0) (hp : s.producer = .scanning 0) : s.shm.nconsumers 0 = 0 := by
  by_contra hw
  obtain ⟨k, hk⟩ := hinv.table.exists_held hinv.capacity_pos (by simp [hp]) hw
  have hnone := hs.none_held hzero k
  simp [hnone] at hk

lemma startup_allocEnd {debug : Bool} {s : State n} {h : History n} (hh : HistoryInv s h)
    (hs : Startup s h) (i : ℕ) (hp : s.producer = .writing i) :
    Startup { s with
        shm := { s.shm with nconsumers := Function.update s.shm.nconsumers i 0 }
        producer := if debug ∧ s.shm.nconsumers i ≠ -1 then .exited else .ending i }
      (record h (.completed i (s.shm.buf i))) := by
  refine ⟨by simp [record], by simp [record], ?_, hs.readPos_zero, hs.target_zero⟩
  intro _
  rcases Nat.eq_zero_or_pos h.completed with hzero | hpos
  · -- the first message: the producer writes entry 0
    have hi : i = 0 := by
      rcases hs.at_first hzero with ⟨hidle, -⟩ | hscan | hwriting
      · simp [hp] at hidle
      · simp [hp] at hscan
      · simpa [hp] using hwriting
    subst hi
    simp [record]
  · exact lt_of_lt_of_le (hs.first_written hpos) (inEntry_le_completed hh i 0 _)

lemma startup_loadPos {s : State n} {h : History n} (hs : Startup s h) (k : Fin n) :
    Startup (s.setConsumer k (.gotPos s.shm.readPos)) (record h (.readPosLoaded k s.shm.readPos)) := by
  refine ⟨?_, hs.at_first, hs.first_written, hs.readPos_zero, ?_⟩
  · intro hzero j
    by_cases hjk : j = k
    · subst hjk
      simp [State.setConsumer, ConsumerPc.held]
    · simpa [State.setConsumer, hjk] using hs.none_held hzero j
  · intro j i hj hload
    by_cases hjk : j = k
    · subst hjk
      have hpub : h.published = 0 := by simpa [record] using hload
      have hi : s.shm.readPos = i := by simpa [State.setConsumer, ConsumerPc.target] using hj
      rw [← hi, hs.readPos_zero hpub]
    · exact hs.target_zero j i (by simpa [State.setConsumer, hjk] using hj)
        (by simpa [record, hjk] using hload)

theorem startup_move {debug : Bool} {s s' : State n} {a : Action n} {es : List (Event n)}
    {h : History n} (hinv : Inv s) (hh : HistoryInv s h) (hs : Startup s h)
    (hafter : ∀ k i old, a = .consumer k → s.consumer k = .gotCount i old →
      s.shm.nconsumers i = old → 0 < h.completed)
    (hm : Move debug s a s' es) : Startup s' (observe record h es) := by
  cases hm with
  | alloc hp =>
    apply startup_setProducer hs s.shm _ 0 rfl
    intro hzero
    rcases hs.at_first hzero with ⟨-, hw⟩ | hscan | hwriting
    · exact Or.inr (Or.inl (by simp [hw]))
    · simp [hp] at hscan
    · simp [hp] at hwriting
  | casWon i hp hw =>
    apply startup_setProducer hs _ _ h.failedCas
    · rfl
    · intro hzero
      rcases hs.at_first hzero with ⟨hidle, -⟩ | hscan | hwriting
      · simp [hp] at hidle
      · have hi : i = 0 := by simpa [hp] using hscan
        exact Or.inr (Or.inr (by simp [hi]))
      · simp [hp] at hwriting
  | casLost i hp hw =>
    apply startup_setProducer hs s.shm _ (h.failedCas + 1) rfl
    intro hzero
    rcases hs.at_first hzero with ⟨hidle, -⟩ | hscan | hwriting
    · simp [hp] at hidle
    · have hi : i = 0 := by simpa [hp] using hscan
      exact absurd (hs.first_free hinv hzero hscan) (hi ▸ hw)
    · simp [hp] at hwriting
  | write i off byte hp ho =>
    have hw := startup_setProducer hs { s.shm with
        buf := Function.update s.shm.buf i (Function.update (s.shm.buf i) off byte) }
      s.producer h.failedCas rfl (fun hzero => hs.at_first hzero)
    exact hw
  | allocEnd i hp => exact startup_allocEnd hh hs i hp
  | publish i hp =>
    have hc := (hh.ending i hp).1
    refine ⟨hs.none_held, ?_, hs.first_written, ?_, hs.target_zero⟩
    · intro hzero
      change h.completed = 0 at hzero
      omega
    · intro hpub
      change h.completed = 0 at hpub
      omega
  | call k hk =>
    exact startup_setConsumer hs k _ s.shm.nconsumers (fun _ => rfl) (by simp [ConsumerPc.target])
  | loadPos k hk => exact startup_loadPos hs k
  | retry k i hk hw =>
    exact startup_setConsumer hs k _ s.shm.nconsumers (fun _ => rfl) (by simp [ConsumerPc.target])
  | loadCount k i hk hw =>
    exact startup_setConsumer hs k _ s.shm.nconsumers (fun _ => rfl)
      (by simp [hk, ConsumerPc.target])
  | acquire k i old hk hw =>
    have hpos := hafter k i old rfl hk hw
    have hset := startup_setConsumer hs k (.reading i)
      (Function.update s.shm.nconsumers i (wrap32 (old + 1))) (fun hzero => by omega)
      (by simp [hk, ConsumerPc.target])
    exact ⟨hset.none_held, hset.at_first, hset.first_written, hset.readPos_zero, hset.target_zero⟩
  | lost k i old hk hw =>
    exact startup_setConsumer hs k _ s.shm.nconsumers (fun _ => rfl) (by simp [ConsumerPc.target])
  | release k i hk =>
    apply startup_setConsumer hs k _ _
    · intro _
      split <;> rfl
    · intro j hj
      split at hj <;> simp [ConsumerPc.target] at hj

theorem startup_run {debug : Bool} {entryNum bufSize : ℤ} {seg shm : Spmc}
    (hinit : spmcInit entryNum bufSize true seg = some shm) {as : List (Action n)} {s : State n}
    {es : List (Event n)} (hafter : EachStep (step debug) AfterFirstMessage (start shm) as)
    (hrun : run (step debug) (start shm) as = some (s, es)) : Startup s (history es) := by
  have hI := run_invariant_eachStep (step debug) AfterFirstMessage
    (fun s es => (Inv s ∧ HistoryInv s (history es)) ∧ Startup s (history es)) ?_ hafter
    ⟨⟨inv_start hinit, historyInv_start shm⟩, startup_start hinit⟩ hrun
  · exact hI.2
  intro s g a s' es hP hI hs
  obtain ⟨⟨hinv, hh⟩, hst⟩ := hI
  have hm := step_move hs
  have happend : history (g ++ es) = observe record (history g) es :=
    observe_append record History.empty g es
  rw [happend]
  refine ⟨⟨inv_move hinv hm, historyInv_move hinv hh hm⟩, startup_move hinv hh hst ?_ hm⟩
  intro k i old ha hk hw
  obtain ⟨j, content, hmem⟩ := hP k i old ha hk hw
  exact completed_pos_of_mem hmem

/-- A successful `consumer_alloc` after the first message returns a written entry. -/
lemma written_of_startup {debug : Bool} {s s' : State n} {es : List (Event n)} {a : Action n}
    {k : Fin n} {i : ℕ} (hh : HistoryInv s (history es)) (hst : Startup s (history es))
    (hafter : AfterFirstMessage s es a)
    (hs : step debug s a = some (s', [.consumerAcquired k i])) :
    ∃ content, .completed i content ∈ es := by
  cases step_move hs with
  | acquire k i old hk hw =>
    obtain ⟨j, content, hmem⟩ := hafter k i old rfl hk hw
    have htarget : (s.consumer k).target = some i := by simp [hk, ConsumerPc.target]
    have hload := hh.loaded_le k i htarget
    apply mem_completed_of_inEntry
    rcases Nat.eq_zero_or_pos ((history es).loadedAt k) with hzero | hpos
    · rw [hst.target_zero k i htarget hzero]
      exact hst.first_written (completed_pos_of_mem hmem)
    · omega

/-- Along every run, every entry that a `consumer_alloc` returns has been written if and only if
no `consumer_alloc` succeeds before the first `producer_alloc_end`. -/
theorem returns_written_iff_after_first_message (debug : Bool) (entryNum bufSize : ℤ)
    (seg shm : Spmc) (hinit : spmcInit entryNum bufSize true seg = some shm)
    (as : List (Action n)) :
    EachStep (step debug) (ReturnsWritten debug) (start shm) as ↔
      EachStep (step debug) AfterFirstMessage (start shm) as := by
  constructor
  · intro hwritten bs a cs t es has hrun k i old ha hk hw
    have hs : step debug t (.consumer k) = some ({ t with
        shm := { t.shm with
          nconsumers := Function.update t.shm.nconsumers i (wrap32 (old + 1)) }
        consumer := Function.update t.consumer k (.reading i) }, [.consumerAcquired k i]) := by
      simp only [step, hk, consumerAllocCas]
      rw [if_pos hw]
    obtain ⟨content, hmem⟩ := hwritten bs a cs t es has hrun _ k i (ha ▸ hs)
    exact ⟨i, content, hmem⟩
  · intro hafter bs a cs t es has hrun s' k i hs
    have hnow := hafter bs a cs t es has hrun
    rw [has] at hafter
    have hst := startup_run hinit (eachStep_left hafter) hrun
    exact written_of_startup (historyInv_run hinit hrun).2 hst hnow hs

/-- The producer completes and publishes a message before the consumer starts. -/
theorem returns_written_one_consumer :
    ∃ shm : Spmc, spmcInit 2 4 true zeroSegment = some shm ∧
      EachStep (step false) (ReturnsWritten false) (start shm : State 1) [.producer, .producer,
        .producer, .producer, .consumer 0, .consumer 0, .consumer 0, .consumer 0] := by
  refine ⟨_, rfl, ?_⟩
  apply (returns_written_iff_after_first_message (n := 1) false 2 4 zeroSegment _ rfl _).mpr
  refine eachStep_cons rfl nofun (eachStep_cons rfl nofun (eachStep_cons rfl nofun
    (eachStep_cons rfl nofun (eachStep_cons rfl ?_ (eachStep_cons rfl ?_ (eachStep_cons rfl ?_
      (eachStep_cons rfl ?_ (eachStep_nil _ _ _))))))))
  · rintro k i old ⟨⟩ ⟨⟩
  · rintro k i old ⟨⟩ ⟨⟩
  · rintro k i old ⟨⟩ ⟨⟩
  · rintro k i old ⟨⟩ ⟨⟩ -
    exact ⟨0, _, List.mem_cons_of_mem _ (List.mem_cons_of_mem _ List.mem_cons_self)⟩

/-- A consumer that starts first is given entry 0, which nobody has written. -/
theorem early_consumer_returns_unwritten :
    ∃ shm : Spmc, spmcInit 2 4 true zeroSegment = some shm ∧
      ¬EachStep (step false) (ReturnsWritten false) (start shm : State 1)
        [.consumer 0, .consumer 0, .consumer 0, .consumer 0] := by
  refine ⟨_, rfl, fun h => ?_⟩
  obtain ⟨content, hmem⟩ :=
    h [.consumer 0, .consumer 0, .consumer 0] (.consumer 0) [] _ _ rfl rfl _ 0 0 rfl
  simp at hmem

end CodeC.Spmc10
