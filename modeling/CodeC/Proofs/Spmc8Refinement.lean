import CodeC.Library.Traces
import CodeC.Proofs.Spmc10Exclusion
import CodeC.Spmc8

/-!
# `spmc8.c` and `spmc10.c` show the same behaviour

Each ring simulates the other. `spmc10.c` answers a read that precedes an exchange of `spmc8.c`
by doing nothing, or by its failed exchange when the read finds the entry in use. `spmc8.c`
answers an exchange of `spmc10.c` by the read and the exchange, one directly after the other.
-/

namespace CodeC.Spmc8
open Library
open Spmc10 (Spmc Action)

variable {n : ℕ}

/-- What an observer of a ring sees. -/
inductive Visible (n : ℕ) where
  | producerAcquires (i : ℕ)
  | producerPublishes (i : ℕ)
  | consumerAcquires (k : Fin n) (i : ℕ)
  | consumerReleases (k : Fin n) (i : ℕ)
  deriving DecidableEq

def visible : Event n → Option (Visible n)
  | .producerAcquired i => some (.producerAcquires i)
  | .published i => some (.producerPublishes i)
  | .consumerAcquired k i => some (.consumerAcquires k i)
  | .consumerReleased k i => some (.consumerReleases k i)

/-- The same for the events of `spmc10.c`. -/
def visible10 : Spmc10.Event n → Option (Visible n)
  | .allocStarted => none
  | .casFailed _ => none
  | .producerAcquired i => some (.producerAcquires i)
  | .completed _ _ => none
  | .published i => some (.producerPublishes i)
  | .readPosLoaded _ _ => none
  | .consumerAcquired k i => some (.consumerAcquires k i)
  | .consumerReleased k i => some (.consumerReleases k i)

def ProducerPc.abstract : ProducerPc → Spmc10.ProducerPc
  | .idle => .idle
  | .scanning i => .scanning i
  | .trying i => .scanning i
  | .writing i => .writing i
  | .ending i => .ending i
  | .publishing i _ => .ending i
  | .exited => .exited

def ConsumerPc.abstract : ConsumerPc → Spmc10.ConsumerPc
  | .idle => .idle
  | .allocating => .allocating
  | .gotPos i => .gotPos i
  | .gotCount i old => .gotCount i old
  | .reading i => .reading i
  | .releasing i _ => .reading i

/-- The state of `spmc10.c` that a state of `spmc8.c` stands for. -/
def State.abstract (s : State n) : Spmc10.State n :=
  ⟨s.shm, s.producer.abstract, ConsumerPc.abstract ∘ s.consumer⟩

lemma abstract_consumer (s : State n) (shm : Spmc) (k : Fin n) (pc : ConsumerPc) :
    State.abstract { s with shm := shm, consumer := Function.update s.consumer k pc } =
      { s.abstract with
        shm := shm
        consumer := Function.update s.abstract.consumer k pc.abstract } := by
  simp only [State.abstract, Function.comp_update]

/-- A consumer step that `spmc10.c` does not have. -/
lemma abstract_setConsumer_same (s : State n) (k : Fin n) (pc : ConsumerPc)
    (h : pc.abstract = (s.consumer k).abstract) : (s.setConsumer k pc).abstract = s.abstract := by
  have hsame : Function.update (ConsumerPc.abstract ∘ s.consumer) k pc.abstract =
      ConsumerPc.abstract ∘ s.consumer := by
    rw [h]
    exact Function.update_eq_self k _
  simp only [State.setConsumer, State.abstract, Function.comp_update, hsame]

/-- `t` is the state that `s` stands for, and `s` has not gone wrong: the producer has not
exited, and the value of `read_pos` that it loaded is still there. -/
structure StandsFor (s : State n) (t : Spmc10.State n) : Prop where
  abstract_eq : s.abstract = t
  inv : Spmc10.Inv t
  running : s.producer ≠ .exited
  loaded : ∀ i old, s.producer = .publishing i old → s.shm.readPos = old

section forward

variable {debug : Bool} {s s' : State n} {t : Spmc10.State n} {es : List (Event n)}

/-- `spmc10.c` takes the corresponding step. -/
lemma answered_by_step (h : StandsFor s t) (a : Action n) (e : List (Spmc10.Event n))
    (hb : Spmc10.step debug s.abstract a = some (s'.abstract, e))
    (hshow : e.filterMap visible10 = es.filterMap visible) (hrun : s'.producer ≠ .exited)
    (hload : ∀ i old, s'.producer = .publishing i old → s'.shm.readPos = old) :
    Answers (Spmc10.step debug) visible visible10 StandsFor t s' es := by
  obtain ⟨rfl, hinv, -, -⟩ := h
  exact answers_step hb hshow ⟨rfl, Spmc10.inv_move hinv (Spmc10.step_move hb), hrun, hload⟩

/-- `spmc10.c` stays where it is. -/
lemma answered_by_staying (h : StandsFor s t) (heq : s'.abstract = s.abstract)
    (hshow : es.filterMap visible = []) (hrun : s'.producer ≠ .exited)
    (hload : ∀ i old, s'.producer = .publishing i old → s'.shm.readPos = old) :
    Answers (Spmc10.step debug) visible visible10 StandsFor t s' es :=
  answers_stay hshow ⟨heq.trans h.abstract_eq, h.inv, hrun, hload⟩

lemma producer_answered (h : StandsFor s t) (hs : step s .producer = some (s', es)) :
    Answers (Spmc10.step debug) visible visible10 StandsFor t s' es := by
  have hinv : Spmc10.Inv s.abstract := h.abstract_eq ▸ h.inv
  cases hp : s.producer with
  | idle =>
    simp only [step, hp] at hs
    obtain ⟨rfl, rfl⟩ := Prod.mk.inj (Option.some.inj hs)
    refine answered_by_step h .producer [.allocStarted] ?_ rfl (by simp) (by simp)
    simp [Spmc10.step, State.abstract, hp, ProducerPc.abstract, Spmc10.producerAlloc]
  | scanning i =>
    simp only [step, hp, producerAllocLoad] at hs
    by_cases hw : s.shm.nconsumers i = 0
    · rw [if_neg (not_not.mpr hw)] at hs
      obtain ⟨rfl, rfl⟩ := Prod.mk.inj (Option.some.inj hs)
      refine answered_by_staying h ?_ rfl (by simp) (by simp)
      simp [State.abstract, hp, ProducerPc.abstract]
    · rw [if_pos hw] at hs
      obtain ⟨rfl, rfl⟩ := Prod.mk.inj (Option.some.inj hs)
      refine answered_by_step h .producer [.casFailed i] ?_ rfl (by simp) (by simp)
      simp [Spmc10.step, State.abstract, hp, ProducerPc.abstract, Spmc10.producerAllocCas, hw]
  | trying i =>
    simp only [step, hp, producerAllocCas] at hs
    by_cases hw : s.shm.nconsumers i = 0
    · rw [if_pos hw] at hs
      obtain ⟨rfl, rfl⟩ := Prod.mk.inj (Option.some.inj hs)
      refine answered_by_step h .producer [.producerAcquired i] ?_ rfl (by simp) (by simp)
      simp [Spmc10.step, State.abstract, hp, ProducerPc.abstract, Spmc10.producerAllocCas, hw]
    · rw [if_neg hw] at hs
      obtain ⟨rfl, rfl⟩ := Prod.mk.inj (Option.some.inj hs)
      refine answered_by_step h .producer [.casFailed i] ?_ rfl (by simp) (by simp)
      simp [Spmc10.step, State.abstract, hp, ProducerPc.abstract, Spmc10.producerAllocCas, hw]
  | writing i =>
    have hi := hinv.producer_lt i (by simp [State.abstract, hp, ProducerPc.abstract,
      Spmc10.ProducerPc.entry])
    have hone : s.shm.nconsumers i = -1 := hinv.table.owner_word hi (by
      simp [State.abstract, hp, ProducerPc.abstract])
    simp only [step, hp, producerAllocEnd] at hs
    rw [if_pos hone] at hs
    obtain ⟨rfl, rfl⟩ := Prod.mk.inj (Option.some.inj hs)
    refine answered_by_step h .producer [.completed i (s.shm.buf i)] ?_ rfl (by simp) (by simp)
    simp [Spmc10.step, State.abstract, hp, ProducerPc.abstract, Spmc10.producerAllocEnd, hone]
  | ending i =>
    simp only [step, hp] at hs
    obtain ⟨rfl, rfl⟩ := Prod.mk.inj (Option.some.inj hs)
    refine answered_by_staying h ?_ rfl (by simp) ?_
    · simp [State.abstract, hp, ProducerPc.abstract]
    · rintro j old ⟨⟩
      rfl
  | publishing i old =>
    have hold := h.loaded i old hp
    simp only [step, hp, producerPublish] at hs
    rw [if_pos hold] at hs
    obtain ⟨rfl, rfl⟩ := Prod.mk.inj (Option.some.inj hs)
    refine answered_by_step h .producer [.published i] ?_ rfl (by simp) (by simp)
    simp [Spmc10.step, State.abstract, hp, ProducerPc.abstract, Spmc10.producerPublish]
  | exited => exact absurd hp h.running

lemma write_answered (h : StandsFor s t) {off : ℕ} {byte : UInt8}
    (hs : step s (.write off byte) = some (s', es)) :
    Answers (Spmc10.step debug) visible visible10 StandsFor t s' es := by
  cases hp : s.producer with
  | writing i =>
    simp only [step, hp] at hs
    by_cases ho : off < s.shm.bufSize
    · rw [if_pos ho] at hs
      obtain ⟨rfl, rfl⟩ := Prod.mk.inj (Option.some.inj hs)
      refine answered_by_step h (.write off byte) [] ?_ rfl (by simp [hp]) (by simp [hp])
      simp [Spmc10.step, State.abstract, hp, ProducerPc.abstract, Spmc10.producerWrite, ho]
    · simp [ho] at hs
  | idle => simp [step, hp] at hs
  | scanning i => simp [step, hp] at hs
  | trying i => simp [step, hp] at hs
  | ending i => simp [step, hp] at hs
  | publishing i old => simp [step, hp] at hs
  | exited => simp [step, hp] at hs

/-- A consumer goes on to the same control point in both programs. -/
lemma answered_by_setConsumer (h : StandsFor s t) (k : Fin n) (pc : ConsumerPc)
    (e : List (Spmc10.Event n))
    (hb : Spmc10.step debug s.abstract (.consumer k) =
      some (s.abstract.setConsumer k pc.abstract, e))
    (hshow : e.filterMap visible10 = es.filterMap visible) :
    Answers (Spmc10.step debug) visible visible10 StandsFor t (s.setConsumer k pc) es := by
  refine answered_by_step h (.consumer k) e ?_ hshow h.running h.loaded
  rw [hb, State.setConsumer, abstract_consumer]
  rfl

lemma consumer_answered (h : StandsFor s t) {k : Fin n}
    (hs : step s (.consumer k) = some (s', es)) :
    Answers (Spmc10.step debug) visible visible10 StandsFor t s' es := by
  have hinv : Spmc10.Inv s.abstract := h.abstract_eq ▸ h.inv
  have habs : s.abstract.consumer k = (s.consumer k).abstract := rfl
  cases hk : s.consumer k with
  | idle =>
    simp only [step, hk] at hs
    obtain ⟨rfl, rfl⟩ := Prod.mk.inj (Option.some.inj hs)
    apply answered_by_setConsumer h k .allocating [] _ rfl
    simp only [Spmc10.step, habs, hk, ConsumerPc.abstract]
  | allocating =>
    simp only [step, hk] at hs
    obtain ⟨rfl, rfl⟩ := Prod.mk.inj (Option.some.inj hs)
    apply answered_by_setConsumer h k (.gotPos s.shm.readPos) [.readPosLoaded k s.shm.readPos] _ rfl
    simp only [Spmc10.step, habs, hk, ConsumerPc.abstract]
    rfl
  | gotPos i =>
    simp only [step, hk, consumerAllocLoadCount] at hs
    by_cases hw : s.shm.nconsumers i < 0
    · rw [if_pos hw] at hs
      obtain ⟨rfl, rfl⟩ := Prod.mk.inj (Option.some.inj hs)
      apply answered_by_setConsumer h k .allocating [] _ rfl
      simp only [Spmc10.step, habs, hk, ConsumerPc.abstract, Spmc10.consumerAllocLoadCount]
      rw [if_pos (show s.abstract.shm.nconsumers i < 0 from hw)]
    · rw [if_neg hw] at hs
      obtain ⟨rfl, rfl⟩ := Prod.mk.inj (Option.some.inj hs)
      apply answered_by_setConsumer h k (.gotCount i (s.shm.nconsumers i)) [] _ rfl
      simp only [Spmc10.step, habs, hk, ConsumerPc.abstract, Spmc10.consumerAllocLoadCount]
      rw [if_neg (show ¬s.abstract.shm.nconsumers i < 0 from hw)]
      rfl
  | gotCount i old =>
    simp only [step, hk, consumerAllocCas] at hs
    by_cases hw : s.shm.nconsumers i = old
    · rw [if_pos hw] at hs
      obtain ⟨rfl, rfl⟩ := Prod.mk.inj (Option.some.inj hs)
      refine answered_by_step h (.consumer k) [.consumerAcquired k i] ?_ rfl h.running h.loaded
      simp only [Spmc10.step, habs, hk, ConsumerPc.abstract, Spmc10.consumerAllocCas]
      rw [if_pos (show s.abstract.shm.nconsumers i = old from hw), abstract_consumer]
      rfl
    · rw [if_neg hw] at hs
      obtain ⟨rfl, rfl⟩ := Prod.mk.inj (Option.some.inj hs)
      apply answered_by_setConsumer h k .allocating [] _ rfl
      simp only [Spmc10.step, habs, hk, ConsumerPc.abstract, Spmc10.consumerAllocCas]
      rw [if_neg (show s.abstract.shm.nconsumers i ≠ old from hw)]
  | reading i =>
    simp only [step, hk] at hs
    obtain ⟨rfl, rfl⟩ := Prod.mk.inj (Option.some.inj hs)
    exact answered_by_staying h (abstract_setConsumer_same s k _ (by simp [hk, ConsumerPc.abstract]))
      rfl h.running h.loaded
  | releasing i old =>
    simp only [step, hk, consumerAllocEndCas] at hs
    by_cases hw : s.shm.nconsumers i = old
    · rw [if_pos hw] at hs
      obtain ⟨rfl, rfl⟩ := Prod.mk.inj (Option.some.inj hs)
      have hread : s.abstract.consumer k = .reading i := by rw [habs, hk]; rfl
      have hi := hinv.consumer_lt k i (by simp [hread, Spmc10.ConsumerPc.target])
      have hnonneg := hinv.table.unlock_read_nonneg hi (k := k) (by simp [hread])
      refine answered_by_step h (.consumer k) [.consumerReleased k i] ?_ rfl h.running h.loaded
      subst hw
      simp only [Spmc10.step, hread, Spmc10.consumerAllocEnd]
      rw [if_neg (not_lt.mpr hnonneg), abstract_consumer]
      rfl
    · rw [if_neg hw] at hs
      obtain ⟨rfl, rfl⟩ := Prod.mk.inj (Option.some.inj hs)
      exact answered_by_staying h
        (abstract_setConsumer_same s k _ (by simp [hk, ConsumerPc.abstract])) rfl h.running h.loaded

/-- `spmc10.c` answers every step of `spmc8.c`. -/
theorem step_answered {a : Action n} (h : StandsFor s t) (hs : step s a = some (s', es)) :
    Answers (Spmc10.step debug) visible visible10 StandsFor t s' es := by
  cases a with
  | producer => exact producer_answered h hs
  | write off byte => exact write_answered h hs
  | consumer k => exact consumer_answered h hs

end forward

section backward

def ProducerPc.ofSpmc10 : Spmc10.ProducerPc → ProducerPc
  | .idle => .idle
  | .scanning i => .scanning i
  | .writing i => .writing i
  | .ending i => .ending i
  | .exited => .exited

-- The consumers of `spmc8.c` never exit, and those of `spmc10.c` do not either.
def ConsumerPc.ofSpmc10 : Spmc10.ConsumerPc → ConsumerPc
  | .idle => .idle
  | .allocating => .allocating
  | .gotPos i => .gotPos i
  | .gotCount i old => .gotCount i old
  | .reading i => .reading i
  | .exited => .idle

/-- The state of `spmc8.c` in which no party is between a read and its exchange. -/
def State.ofSpmc10 (t : Spmc10.State n) : State n :=
  ⟨t.shm, .ofSpmc10 t.producer, ConsumerPc.ofSpmc10 ∘ t.consumer⟩

lemma ofSpmc10_setConsumer (t : Spmc10.State n) (k : Fin n) (pc : Spmc10.ConsumerPc) :
    State.ofSpmc10 (t.setConsumer k pc) = (State.ofSpmc10 t).setConsumer k (.ofSpmc10 pc) := by
  simp only [State.ofSpmc10, State.setConsumer, Spmc10.State.setConsumer, Function.comp_update]

def Embeds (t : Spmc10.State n) (s : State n) : Prop :=
  s = State.ofSpmc10 t ∧ Spmc10.Inv t

variable {debug : Bool} {t t' : Spmc10.State n} {a : Action n} {es : List (Spmc10.Event n)}

/-- `spmc8.c` answers every step of `spmc10.c`. -/
theorem spmc10_step_answered {s : State n} (h : Embeds t s)
    (hs : Spmc10.step debug t a = some (t', es)) :
    Answers step visible10 visible Embeds s t' es := by
  obtain ⟨rfl, hinv⟩ := h
  have hinv' : Spmc10.Inv t' := Spmc10.inv_move hinv (Spmc10.step_move hs)
  have hR : Embeds t' (State.ofSpmc10 t') := ⟨rfl, hinv'⟩
  cases Spmc10.step_move hs with
  | alloc hp =>
    refine answers_step (b := .producer) (e := []) ?_ rfl hR
    simp [step, State.ofSpmc10, ProducerPc.ofSpmc10, hp]
  | casWon i hp hw =>
    refine answers_two_steps (b := .producer) (c := .producer) (e := []) (f := [.producerAcquired i])
      (u := { State.ofSpmc10 t with producer := .trying i }) ?_ ?_ rfl hR
    · simp [step, State.ofSpmc10, ProducerPc.ofSpmc10, hp, producerAllocLoad, hw]
    · exact congrArg some (if_pos hw)
  | casLost i hp hw =>
    refine answers_step (b := .producer) (e := []) ?_ rfl hR
    simp [step, State.ofSpmc10, ProducerPc.ofSpmc10, hp, producerAllocLoad, hw]
  | write i off byte hp ho =>
    refine answers_step (b := .write off byte) (e := []) ?_ rfl hR
    simp [step, State.ofSpmc10, ProducerPc.ofSpmc10, hp, producerWrite, ho]
  | allocEnd i hp =>
    have hi := hinv.producer_lt i (by simp [hp, Spmc10.ProducerPc.entry])
    have hone : t.shm.nconsumers i = -1 := hinv.table.owner_word hi (by simp [hp])
    refine answers_step (b := .producer) (e := []) ?_ rfl hR
    simp [step, State.ofSpmc10, ProducerPc.ofSpmc10, hp, producerAllocEnd, hone]
  | publish i hp =>
    refine answers_two_steps (b := .producer) (c := .producer) (e := []) (f := [.published i])
      (u := { State.ofSpmc10 t with producer := .publishing i t.shm.readPos }) ?_ ?_ rfl hR
    · simp [step, State.ofSpmc10, ProducerPc.ofSpmc10, hp]
    · simp [step, State.ofSpmc10, ProducerPc.ofSpmc10, producerPublish]
  | call k hk =>
    refine answers_step (b := .consumer k) (e := []) ?_ rfl hR
    rw [ofSpmc10_setConsumer]
    simp [step, State.ofSpmc10, ConsumerPc.ofSpmc10, hk]
  | loadPos k hk =>
    refine answers_step (b := .consumer k) (e := []) ?_ rfl hR
    rw [ofSpmc10_setConsumer]
    simp [step, State.ofSpmc10, ConsumerPc.ofSpmc10, hk]
  | retry k i hk hw =>
    refine answers_step (b := .consumer k) (e := []) ?_ rfl hR
    rw [ofSpmc10_setConsumer]
    simp [step, State.ofSpmc10, ConsumerPc.ofSpmc10, hk, consumerAllocLoadCount, hw]
  | loadCount k i hk hw =>
    refine answers_step (b := .consumer k) (e := []) ?_ rfl hR
    rw [ofSpmc10_setConsumer]
    simp [step, State.ofSpmc10, ConsumerPc.ofSpmc10, hk, consumerAllocLoadCount, hw]
  | acquire k i old hk hw =>
    refine answers_step (b := .consumer k) (e := [.consumerAcquired k i]) ?_ rfl hR
    simp [step, State.ofSpmc10, ConsumerPc.ofSpmc10, hk, consumerAllocCas, hw, Function.comp_update]
  | lost k i old hk hw =>
    refine answers_step (b := .consumer k) (e := []) ?_ rfl hR
    rw [ofSpmc10_setConsumer]
    simp [step, State.ofSpmc10, ConsumerPc.ofSpmc10, hk, consumerAllocCas, hw]
  | release k i hk =>
    have hi := hinv.consumer_lt k i (by simp [hk, Spmc10.ConsumerPc.target])
    have hnonneg := hinv.table.unlock_read_nonneg hi (k := k) (by simp [hk])
    refine answers_two_steps (b := .consumer k) (c := .consumer k) (e := [])
      (f := [.consumerReleased k i])
      (u := (State.ofSpmc10 t).setConsumer k (.releasing i (t.shm.nconsumers i))) ?_ ?_ rfl hR
    · simp [step, State.ofSpmc10, ConsumerPc.ofSpmc10, hk]
    · simp [step, State.ofSpmc10, ConsumerPc.ofSpmc10, State.setConsumer, consumerAllocEndCas,
        Function.comp_update, not_lt.mpr hnonneg]

end backward

/-- On a zero-filled segment the two `spmc_init` agree. -/
lemma spmcInit_eq (entryNum bufSize : ℤ) (isProducer : Bool) :
    spmcInit entryNum bufSize isProducer Spmc10.zeroSegment =
      Spmc10.spmcInit entryNum bufSize isProducer Spmc10.zeroSegment := rfl

lemma standsFor_start {entryNum bufSize : ℤ} {seg shm : Spmc}
    (h : Spmc10.spmcInit entryNum bufSize true seg = some shm) :
    StandsFor (start shm : State n) (Spmc10.start shm) :=
  ⟨rfl, Spmc10.inv_start h, by simp [start], by simp [start]⟩

/-- The two rings have the same visible behaviour, and no run of `spmc8.c` reaches the exit in
`producer_alloc_end`. -/
theorem traces_eq_spmc10 (debug : Bool) (entryNum bufSize : ℤ) (shm shm10 : Spmc)
    (hinit : spmcInit entryNum bufSize true Spmc10.zeroSegment = some shm)
    (hinit10 : Spmc10.spmcInit entryNum bufSize true Spmc10.zeroSegment = some shm10) :
    traces step visible (start shm : State n) =
        traces (Spmc10.step debug) visible10 (Spmc10.start shm10) ∧
      ∀ (as : List (Action n)) (s : State n) (es : List (Event n)),
        run step (start shm) as = some (s, es) → s.producer ≠ .exited := by
  rw [spmcInit_eq] at hinit
  obtain rfl : shm = shm10 := Option.some.inj (hinit.symm.trans hinit10)
  have hstart : StandsFor (start shm : State n) (Spmc10.start shm) := standsFor_start hinit
  refine ⟨Set.Subset.antisymm ?_ ?_, ?_⟩
  · exact traces_subset (fun _ _ _ _ _ => step_answered) hstart
  · exact traces_subset (fun _ _ _ _ _ => spmc10_step_answered) ⟨rfl, Spmc10.inv_start hinit⟩
  · intro as s es hrun
    have hanswers : Answers (Spmc10.step debug) visible visible10 StandsFor (Spmc10.start shm) s es :=
      run_answers (fun _ _ _ _ _ => step_answered) hstart hrun
    obtain ⟨_, _, _, _, _, hs⟩ := hanswers
    exact hs.running

/-- A message written and read, on a ring of two entries with one consumer. -/
theorem traces_eq_spmc10_two_entries :
    ∃ shm : Spmc, Spmc10.spmcInit 2 4 true Spmc10.zeroSegment = some shm ∧
      [.producerAcquires 0, .producerPublishes 0, .consumerAcquires 0 0, .consumerReleases 0 0] ∈
        traces (Spmc10.step true) visible10 (Spmc10.start shm : Spmc10.State 1) := by
  refine ⟨_, rfl, ?_⟩
  rw [← (traces_eq_spmc10 (n := 1) true 2 4 _ _ rfl rfl).1]
  exact ⟨[.producer, .producer, .producer, .write 0 7, .producer, .producer, .producer,
    .consumer 0, .consumer 0, .consumer 0, .consumer 0, .consumer 0, .consumer 0], _, _, rfl, rfl⟩

end CodeC.Spmc8
