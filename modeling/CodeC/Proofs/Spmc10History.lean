import CodeC.Proofs.Spmc10Exclusion

/-!
# Messages of `spmc10.c`

The messages are numbered 1, 2, 3, ... in the order in which the producer completes them.
`History` is what an observer derives from the emitted events: the content of every
message, the last message completed in each entry and the last one published, and for each
consumer what it loaded and what it obtained.
-/

namespace CodeC.Spmc10
open Library

variable {n : ℕ}

/-- One successful `consumer_alloc`: the entry, the number of the message in it, and the
number of the last message published when `read_pos` was loaded. -/
structure Acquisition where
  entry : ℕ
  msg : ℕ
  loadedAt : ℕ
  deriving DecidableEq, Repr

structure History (n : ℕ) where
  completed : ℕ
  published : ℕ
  message : ℕ → ℕ → UInt8
  inEntry : ℕ → ℕ
  failedCas : ℕ
  loadedAt : Fin n → ℕ
  acquired : Fin n → List Acquisition

def History.empty : History n :=
  ⟨0, 0, fun _ _ => 0, fun _ => 0, 0, fun _ => 0, fun _ => []⟩

def record (h : History n) : Event n → History n
  | .allocStarted => { h with failedCas := 0 }
  | .casFailed _ => { h with failedCas := h.failedCas + 1 }
  | .producerAcquired _ => h
  | .completed i content =>
    { h with
      completed := h.completed + 1
      message := Function.update h.message (h.completed + 1) content
      inEntry := Function.update h.inEntry i (h.completed + 1) }
  | .published _ => { h with published := h.completed }
  | .readPosLoaded k _ => { h with loadedAt := Function.update h.loadedAt k h.published }
  | .consumerAcquired k i =>
    { h with
      acquired := Function.update h.acquired k
        (h.acquired k ++ [⟨i, h.inEntry i, h.loadedAt k⟩]) }
  | .consumerReleased _ _ => h

def history (es : List (Event n)) : History n := observe record History.empty es

/-- How the numbers of messages relate to the state of the ring. Between the two stores of
`producer_alloc_end` one message is completed and not yet published. -/
structure HistoryInv (s : State n) (h : History n) : Prop where
  settled : (∀ i, s.producer ≠ .ending i) → h.completed = h.published
  ending : ∀ i, s.producer = .ending i →
    h.completed = h.published + 1 ∧ h.inEntry i = h.completed
  entry_le : ∀ i, h.inEntry i ≤ h.completed
  published_le : h.published ≤ h.inEntry s.shm.readPos
  loaded_le : ∀ k i, (s.consumer k).target = some i → h.loadedAt k ≤ h.inEntry i
  content : ∀ i, s.producer ≠ .writing i → 0 < h.inEntry i →
    s.shm.buf i = h.message (h.inEntry i)

lemma historyInv_start (shm : Spmc) : HistoryInv (start shm : State n) History.empty := by
  refine ⟨fun _ => rfl, ?_, fun i => le_refl _, le_refl _, ?_, ?_⟩
  · simp [start]
  · simp [start, ConsumerPc.target]
  · intro i _ hi
    simp [History.empty] at hi

lemma HistoryInv.completed_le {s : State n} {h : History n} (hh : HistoryInv s h) :
    h.completed ≤ h.published + 1 := by
  by_cases he : ∃ i, s.producer = .ending i
  · obtain ⟨i, hi⟩ := he
    exact (hh.ending i hi).1.le
  · push Not at he
    have := hh.settled he
    omega

/-- A producer step that neither completes nor publishes a message. -/
lemma historyInv_setProducer {s : State n} {h : History n} (hh : HistoryInv s h) (shm : Spmc)
    (pc : ProducerPc) (failedCas : ℕ) (hold : ∀ i, s.producer ≠ .ending i)
    (hnew : ∀ i, pc ≠ .ending i) (hread : shm.readPos = s.shm.readPos)
    (hbuf : ∀ i, pc ≠ .writing i → shm.buf i = s.shm.buf i)
    (hkeep : ∀ i, pc ≠ .writing i → s.producer ≠ .writing i) :
    HistoryInv { s with shm := shm, producer := pc } { h with failedCas := failedCas } := by
  refine ⟨fun _ => hh.settled hold, fun i hi => absurd hi (hnew i), hh.entry_le, ?_,
    hh.loaded_le, ?_⟩
  · simp only [hread]
    exact hh.published_le
  · intro i hi hpos
    change shm.buf i = _
    rw [hbuf i hi]
    exact hh.content i (hkeep i hi) hpos

lemma historyInv_setConsumer {s : State n} {h : History n} (hh : HistoryInv s h) (k : Fin n)
    (pc : ConsumerPc) (htarget : ∀ i, pc.target = some i → (s.consumer k).target = some i)
    (nconsumers : ℕ → ℤ) :
    HistoryInv { s with
      shm := { s.shm with nconsumers := nconsumers }
      consumer := Function.update s.consumer k pc } h := by
  refine ⟨hh.settled, hh.ending, hh.entry_le, hh.published_le, ?_, hh.content⟩
  intro j i hj
  by_cases hjk : j = k
  · subst hjk
    exact hh.loaded_le j i (htarget i (by simpa using hj))
  · exact hh.loaded_le j i (by simpa [hjk] using hj)

lemma inEntry_le_completed {s : State n} {h : History n} (hh : HistoryInv s h) (i j : ℕ)
    (content : ℕ → UInt8) : h.inEntry j ≤ (record h (.completed i content)).inEntry j := by
  by_cases hji : j = i
  · subst hji
    simp only [record, Function.update_self]
    exact (hh.entry_le j).trans (Nat.le_succ _)
  · simp [record, hji]

lemma historyInv_allocEnd {debug : Bool} {s : State n} {h : History n} (hinv : Inv s)
    (hh : HistoryInv s h) (i : ℕ) (hp : s.producer = .writing i) :
    HistoryInv { s with
        shm := { s.shm with nconsumers := Function.update s.shm.nconsumers i 0 }
        producer := if debug ∧ s.shm.nconsumers i ≠ -1 then .exited else .ending i }
      (record h (.completed i (s.shm.buf i))) := by
  have hi : i < s.shm.capacity := hinv.producer_lt i (by simp [hp, ProducerPc.entry])
  have hone : s.shm.nconsumers i = -1 :=
    hinv.table.owner_word hi ((producer_held_eq_some _ _).mpr hp)
  have hset := hh.settled (by simp [hp])
  rw [if_neg (by simp [hone])]
  refine ⟨?_, ?_, ?_, ?_, ?_, ?_⟩
  · intro hne
    exact absurd rfl (hne i)
  · intro j hj
    simp only [ProducerPc.ending.injEq] at hj
    subst hj
    simp [record, hset]
  · intro j
    by_cases hji : j = i
    · subst hji
      simp [record]
    · simpa [record, hji] using (hh.entry_le j).trans (Nat.le_succ _)
  · exact hh.published_le.trans (inEntry_le_completed hh i _ _)
  · intro k j hj
    exact (hh.loaded_le k j hj).trans (inEntry_le_completed hh i _ _)
  · intro j hj hpos
    by_cases hji : j = i
    · subst hji
      simp [record]
    · have hle := hh.entry_le j
      have hpos' : 0 < h.inEntry j := by simpa [record, hji] using hpos
      have hmsg : h.inEntry j ≠ h.completed + 1 := by omega
      simpa [record, hji, hmsg] using hh.content j (by simp [hp, Ne.symm hji]) hpos'

theorem historyInv_move {debug : Bool} {s s' : State n} {a : Action n} {es : List (Event n)}
    {h : History n} (hinv : Inv s) (hh : HistoryInv s h) (hm : Move debug s a s' es) :
    HistoryInv s' (observe record h es) := by
  cases hm with
  | alloc hp =>
    exact historyInv_setProducer hh s.shm _ 0 (by simp [hp]) (by simp) rfl (fun _ _ => rfl)
      (by simp [hp])
  | casWon i hp hw =>
    exact historyInv_setProducer hh _ _ h.failedCas (by simp [hp]) (by simp) rfl
      (fun _ _ => rfl) (by simp [hp])
  | casLost i hp hw =>
    exact historyInv_setProducer hh s.shm _ (h.failedCas + 1) (by simp [hp]) (by simp) rfl
      (fun _ _ => rfl) (by simp [hp])
  | write i off byte hp ho =>
    have hw := historyInv_setProducer hh { s.shm with
        buf := Function.update s.shm.buf i (Function.update (s.shm.buf i) off byte) }
      (.writing i) h.failedCas (by simp [hp]) (by simp) rfl
      (by intro j hj; simp only [ne_eq, ProducerPc.writing.injEq] at hj; simp [Ne.symm hj])
      (by simp [hp])
    rw [← hp] at hw
    exact hw
  | allocEnd i hp => exact historyInv_allocEnd hinv hh i hp
  | publish i hp =>
    obtain ⟨hc, hi⟩ := hh.ending i hp
    refine ⟨fun _ => rfl, by simp, hh.entry_le, ?_, hh.loaded_le, ?_⟩
    · exact hi.ge
    · intro j _ hpos
      exact hh.content j (by simp [hp]) hpos
  | call k hk =>
    exact historyInv_setConsumer hh k _ (by simp [ConsumerPc.target]) s.shm.nconsumers
  | loadPos k hk =>
    refine ⟨hh.settled, hh.ending, hh.entry_le, hh.published_le, ?_, hh.content⟩
    intro j i hj
    by_cases hjk : j = k
    · subst hjk
      simp only [State.setConsumer, Function.update_self, ConsumerPc.target,
        Option.some.injEq] at hj
      subst hj
      simpa [record] using hh.published_le
    · simpa [record, hjk] using hh.loaded_le j i (by simpa [State.setConsumer, hjk] using hj)
  | retry k i hk hw =>
    exact historyInv_setConsumer hh k _ (by simp [ConsumerPc.target]) s.shm.nconsumers
  | loadCount k i hk hw =>
    exact historyInv_setConsumer hh k _ (by simp [hk, ConsumerPc.target]) s.shm.nconsumers
  | acquire k i old hk hw =>
    have hs := historyInv_setConsumer hh k (.reading i) (by simp [hk, ConsumerPc.target])
      (Function.update s.shm.nconsumers i (wrap32 (old + 1)))
    exact ⟨hs.settled, hs.ending, hs.entry_le, hs.published_le, hs.loaded_le, hs.content⟩
  | lost k i old hk hw =>
    exact historyInv_setConsumer hh k _ (by simp [ConsumerPc.target]) s.shm.nconsumers
  | release k i hk =>
    have hnone : ∀ j, (if wrap32 (s.shm.nconsumers i - 1) < 0 then ConsumerPc.exited
        else ConsumerPc.idle).target ≠ some j := by
      intro j
      split <;> simp [ConsumerPc.target]
    exact historyInv_setConsumer hh k _ (fun j hj => absurd hj (hnone j))
      (Function.update s.shm.nconsumers i (wrap32 (s.shm.nconsumers i - 1)))

theorem historyInv_run {debug : Bool} {entryNum bufSize : ℤ} {seg shm : Spmc}
    (hinit : spmcInit entryNum bufSize true seg = some shm) {as : List (Action n)} {s : State n}
    {es : List (Event n)} (hrun : run (step debug) (start shm) as = some (s, es)) :
    Inv s ∧ HistoryInv s (history es) :=
  run_invariant (step debug) record (fun s h => Inv s ∧ HistoryInv s h)
    (fun _ _ _ _ _ h hs => ⟨inv_move h.1 (step_move hs), historyInv_move h.1 h.2 (step_move hs)⟩)
    ⟨inv_start hinit, historyInv_start shm⟩ hrun

end CodeC.Spmc10
