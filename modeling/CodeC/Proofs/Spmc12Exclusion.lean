import CodeC.Spmc12

/-!
# When producer and consumers of `spmc12.c` exclude each other

`producer_alloc` takes the lock of an entry for reading, so no lock is ever held for writing
and no attempt to lock fails. What keeps producer and consumers apart is only that they do not
try the same entry at the same time.
-/

namespace CodeC.Spmc12
open Library

variable {n : ℕ}

/-- Producer and consumers never hold the same entry. -/
def Exclusion (s : State n) : Prop :=
  ∀ i, s.producer = .writing i → ∀ k, s.consumer k ≠ .reading i

/-- The step does not try the lock of an entry that the other side holds. -/
def Apart (s : State n) : Action n → Prop
  | .producer => ∀ i, s.producer = .scanning i → ∀ k, s.consumer k ≠ .reading i
  | .consumer k => ∀ i, s.consumer k = .gotPos i → s.producer ≠ .writing i

/-- The entry a producer control point refers to. -/
def ProducerPc.entry : ProducerPc → Option ℕ
  | .idle => none
  | .scanning i => some i
  | .writing i => some i
  | .ending i => some i

/-- The entry a consumer has loaded from `read_pos` and not yet released. -/
def ConsumerPc.target : ConsumerPc → Option ℕ
  | .idle => none
  | .allocating => none
  | .gotPos i => some i
  | .reading i => some i

/-- All the positions in use are entries of the ring, and no lock of the ring has a writer. -/
structure Inv (s : State n) : Prop where
  capacity_pos : 0 < s.shm.capacity
  readPos_lt : s.shm.readPos < s.shm.capacity
  writePos_lt : s.shm.writePos < s.shm.capacity
  producer_lt : ∀ i, s.producer.entry = some i → i < s.shm.capacity
  consumer_lt : ∀ k i, (s.consumer k).target = some i → i < s.shm.capacity
  unwritten : ∀ i, i < s.shm.capacity → (s.shm.rwlocks i).writer = false

lemma inv_start {entryNum bufSize : ℤ} {seg shm : Spmc}
    (h : spmcInit entryNum bufSize true seg = some shm) : Inv (start shm : State n) := by
  unfold spmcInit entryNumMax at h
  by_cases hbad : entryNum ≤ 0 ∨ entryNum > 64 ∨ bufSize ≤ 0
  · simp [hbad] at h
  · simp only [hbad, if_false, if_true, Option.some.injEq] at h
    subst h
    have hpos : 0 < entryNum.toNat := by omega
    refine ⟨hpos, hpos, hpos, ?_, ?_, ?_⟩
    · simp [start, ProducerPc.entry]
    · simp [start, ConsumerPc.target]
    · intro i hi
      change i < entryNum.toNat at hi
      change (if i < entryNum.toNat then rwlockInit else seg.rwlocks i).writer = false
      rw [if_pos hi]
      rfl

lemma tryrdlock_eq {l : RwLock} (h : l.writer = false) :
    tryrdlock l = some { l with readers := l.readers + 1 } := by
  simp [tryrdlock, h]

lemma unlock_writer {l : RwLock} (h : l.writer = false) : (unlock l).writer = false := by
  simp [unlock, h]

/-- Every step of the system. The attempts to lock an entry all succeed. -/
inductive Move (s : State n) : Action n → State n → List (Event n) → Prop
  | alloc (hp : s.producer = .idle) : Move s .producer { s with producer := .scanning s.shm.writePos } []
  | producerLock (i : ℕ) (hp : s.producer = .scanning i) (hw : (s.shm.rwlocks i).writer = false) :
    Move s .producer
      { s with
        shm := { s.shm.setLock i
            { s.shm.rwlocks i with readers := (s.shm.rwlocks i).readers + 1 } with
          size := if s.shm.size ≤ i then i + 1 else s.shm.size
          writePos := (i + 1) % s.shm.capacity }
        producer := .writing i } [.producerAcquired i]
  | producerUnlock (i : ℕ) (hp : s.producer = .writing i) :
    Move s .producer
      { s with shm := s.shm.setLock i (unlock (s.shm.rwlocks i)), producer := .ending i }
      [.producerReleased i]
  | publish (i : ℕ) (hp : s.producer = .ending i) :
    Move s .producer { s with shm := { s.shm with readPos := i }, producer := .idle } [.published i]
  | call (k : Fin n) (hk : s.consumer k = .idle) :
    Move s (.consumer k) (s.setConsumer k .allocating) []
  | loadPos (k : Fin n) (hk : s.consumer k = .allocating) :
    Move s (.consumer k) (s.setConsumer k (.gotPos s.shm.readPos)) []
  | consumerLock (k : Fin n) (i : ℕ) (hk : s.consumer k = .gotPos i)
      (hw : (s.shm.rwlocks i).writer = false) :
    Move s (.consumer k)
      { s with
        shm := s.shm.setLock i { s.shm.rwlocks i with readers := (s.shm.rwlocks i).readers + 1 }
        consumer := Function.update s.consumer k (.reading i) } [.consumerAcquired k i]
  | consumerUnlock (k : Fin n) (i : ℕ) (hk : s.consumer k = .reading i) :
    Move s (.consumer k)
      { s with
        shm := s.shm.setLock i (unlock (s.shm.rwlocks i))
        consumer := Function.update s.consumer k .idle } [.consumerReleased k i]

theorem step_move {s s' : State n} {a : Action n} {es : List (Event n)} (hinv : Inv s)
    (h : step s a = some (s', es)) : Move s a s' es := by
  cases a with
  | producer =>
    cases hp : s.producer with
    | idle =>
      simp only [step, hp] at h
      obtain ⟨rfl, rfl⟩ := Prod.mk.inj (Option.some.inj h)
      exact .alloc hp
    | scanning i =>
      have hw := hinv.unwritten i (hinv.producer_lt i (by simp [hp, ProducerPc.entry]))
      simp only [step, hp, producerAllocTry, tryrdlock_eq hw] at h
      obtain ⟨rfl, rfl⟩ := Prod.mk.inj (Option.some.inj h)
      exact .producerLock i hp hw
    | writing i =>
      simp only [step, hp, producerAllocEnd] at h
      obtain ⟨rfl, rfl⟩ := Prod.mk.inj (Option.some.inj h)
      exact .producerUnlock i hp
    | ending i =>
      simp only [step, hp, producerPublish] at h
      obtain ⟨rfl, rfl⟩ := Prod.mk.inj (Option.some.inj h)
      exact .publish i hp
  | consumer k =>
    cases hk : s.consumer k with
    | idle =>
      simp only [step, hk] at h
      obtain ⟨rfl, rfl⟩ := Prod.mk.inj (Option.some.inj h)
      exact .call k hk
    | allocating =>
      simp only [step, hk] at h
      obtain ⟨rfl, rfl⟩ := Prod.mk.inj (Option.some.inj h)
      exact .loadPos k hk
    | gotPos i =>
      have hw := hinv.unwritten i (hinv.consumer_lt k i (by simp [hk, ConsumerPc.target]))
      simp only [step, hk, consumerAllocTry, tryrdlock_eq hw] at h
      obtain ⟨rfl, rfl⟩ := Prod.mk.inj (Option.some.inj h)
      exact .consumerLock k i hk hw
    | reading i =>
      simp only [step, hk, consumerAllocEnd] at h
      obtain ⟨rfl, rfl⟩ := Prod.mk.inj (Option.some.inj h)
      exact .consumerUnlock k i hk

/-- A lock changes and keeps its lack of a writer. -/
lemma unwritten_setLock {shm : Spmc} {cap : ℕ}
    (h : ∀ i, i < cap → (shm.rwlocks i).writer = false) (j : ℕ) (l : RwLock)
    (hl : l.writer = false) : ∀ i, i < cap → ((shm.setLock j l).rwlocks i).writer = false := by
  intro i hi
  by_cases hij : i = j
  · subst hij
    simpa [Spmc.setLock] using hl
  · simpa [Spmc.setLock, hij] using h i hi

lemma target_update {s : State n} {k : Fin n} {pc : ConsumerPc} {cap : ℕ}
    (h : ∀ j i, (s.consumer j).target = some i → i < cap)
    (hpc : ∀ i, pc.target = some i → i < cap) :
    ∀ j i, (Function.update s.consumer k pc j).target = some i → i < cap := by
  intro j i hj
  by_cases hjk : j = k
  · subst hjk
    exact hpc i (by simpa using hj)
  · exact h j i (by simpa [hjk] using hj)

theorem inv_move {s s' : State n} {a : Action n} {es : List (Event n)} (h : Inv s)
    (hm : Move s a s' es) : Inv s' := by
  cases hm with
  | alloc hp =>
    refine ⟨h.capacity_pos, h.readPos_lt, h.writePos_lt, ?_, h.consumer_lt, h.unwritten⟩
    intro i hi
    exact Option.some.inj hi ▸ h.writePos_lt
  | producerLock i hp hw =>
    have hi : i < s.shm.capacity := h.producer_lt i (by simp [hp, ProducerPc.entry])
    refine ⟨h.capacity_pos, h.readPos_lt, Nat.mod_lt _ h.capacity_pos, ?_, h.consumer_lt,
      unwritten_setLock h.unwritten i _ hw⟩
    intro j hj
    exact Option.some.inj hj ▸ hi
  | producerUnlock i hp =>
    have hi : i < s.shm.capacity := h.producer_lt i (by simp [hp, ProducerPc.entry])
    refine ⟨h.capacity_pos, h.readPos_lt, h.writePos_lt, ?_, h.consumer_lt,
      unwritten_setLock h.unwritten i _ (unlock_writer (h.unwritten i hi))⟩
    intro j hj
    exact Option.some.inj hj ▸ hi
  | publish i hp =>
    have hi : i < s.shm.capacity := h.producer_lt i (by simp [hp, ProducerPc.entry])
    exact ⟨h.capacity_pos, hi, h.writePos_lt, by simp [ProducerPc.entry], h.consumer_lt,
      h.unwritten⟩
  | call k hk =>
    exact ⟨h.capacity_pos, h.readPos_lt, h.writePos_lt, h.producer_lt,
      target_update h.consumer_lt (by simp [ConsumerPc.target]), h.unwritten⟩
  | loadPos k hk =>
    refine ⟨h.capacity_pos, h.readPos_lt, h.writePos_lt, h.producer_lt,
      target_update h.consumer_lt ?_, h.unwritten⟩
    intro i hi
    exact Option.some.inj hi ▸ h.readPos_lt
  | consumerLock k i hk hw =>
    have hi : i < s.shm.capacity := h.consumer_lt k i (by simp [hk, ConsumerPc.target])
    refine ⟨h.capacity_pos, h.readPos_lt, h.writePos_lt, h.producer_lt,
      target_update h.consumer_lt ?_, unwritten_setLock h.unwritten i _ hw⟩
    intro j hj
    exact Option.some.inj hj ▸ hi
  | consumerUnlock k i hk =>
    have hi : i < s.shm.capacity := h.consumer_lt k i (by simp [hk, ConsumerPc.target])
    exact ⟨h.capacity_pos, h.readPos_lt, h.writePos_lt, h.producer_lt,
      target_update h.consumer_lt (by simp [ConsumerPc.target]),
      unwritten_setLock h.unwritten i _ (unlock_writer (h.unwritten i hi))⟩

/-- A consumer moves to a control point at which it holds nothing the producer holds. -/
lemma exclusion_update {s : State n} (hx : Exclusion s) (shm : Spmc) (k : Fin n) (pc : ConsumerPc)
    (hpc : ∀ i, s.producer = .writing i → pc ≠ .reading i) :
    Exclusion { s with shm := shm, consumer := Function.update s.consumer k pc } := by
  intro i hp j
  by_cases hjk : j = k
  · subst hjk
    simpa using hpc i hp
  · simpa [hjk] using hx i hp j

theorem exclusion_move {s s' : State n} {a : Action n} {es : List (Event n)} (hx : Exclusion s)
    (ha : Apart s a) (hm : Move s a s' es) : Exclusion s' := by
  cases hm with
  | alloc hp => simp [Exclusion]
  | producerLock i hp hw =>
    intro j hj
    obtain rfl := ProducerPc.writing.inj hj
    exact ha i hp
  | producerUnlock i hp => simp [Exclusion]
  | publish i hp => simp [Exclusion]
  | call k hk => exact exclusion_update hx s.shm k _ (by simp)
  | loadPos k hk => exact exclusion_update hx s.shm k _ (by simp)
  | consumerLock k i hk hw =>
    apply exclusion_update hx _ k
    intro j hp hread
    obtain rfl := ConsumerPc.reading.inj hread
    exact ha i hk hp
  | consumerUnlock k i hk => exact exclusion_update hx _ k _ (by simp)

/-- Who tries an entry that the other side holds gets it. -/
lemma exclusion_broken {s : State n} {a : Action n} (h : Inv s) (hbad : ¬Apart s a) :
    ∃ s' es, step s a = some (s', es) ∧ ¬Exclusion s' := by
  cases a with
  | producer =>
    simp only [Apart] at hbad
    push Not at hbad
    obtain ⟨i, hp, k, hk⟩ := hbad
    have hw := h.unwritten i (h.producer_lt i (by simp [hp, ProducerPc.entry]))
    refine ⟨_, _, by simp only [step, hp, producerAllocTry, tryrdlock_eq hw]; rfl, ?_⟩
    intro hx
    exact hx i rfl k hk
  | consumer k =>
    simp only [Apart] at hbad
    push Not at hbad
    obtain ⟨i, hk, hp⟩ := hbad
    have hw := h.unwritten i (h.consumer_lt k i (by simp [hk, ConsumerPc.target]))
    refine ⟨_, _, by simp only [step, hk, consumerAllocTry, tryrdlock_eq hw]; rfl, ?_⟩
    intro hx
    exact hx i hp k (by simp)

/-- Along every interleaving, producer and consumers exclude each other if and only if neither
side ever tries an entry that the other side holds. -/
theorem exclusion_iff_apart (entryNum bufSize : ℤ) (seg shm : Spmc)
    (hinit : spmcInit entryNum bufSize true seg = some shm) (as : List (Action n)) :
    Throughout step Exclusion (start shm) as ↔ StepsMeet step Apart (start shm) as := by
  have hstep : ∀ (s : State n) a s' es, Inv s ∧ Exclusion s → Apart s a →
      step s a = some (s', es) → Inv s' ∧ Exclusion s' := by
    intro s a s' es hI ha hs
    have hm := step_move hI.1 hs
    exact ⟨inv_move hI.1 hm, exclusion_move hI.2 ha hm⟩
  have hI : Inv (start shm : State n) ∧ Exclusion (start shm : State n) :=
    ⟨inv_start hinit, by simp [Exclusion, start]⟩
  constructor
  · exact stepsMeet_of_throughout hstep (fun s a h hbad => exclusion_broken h.1 hbad) hI
  · exact throughout_of_stepsMeet hstep (fun s h => h.2) hI

def zeroSegment : Spmc := ⟨0, 0, 0, 0, 0, fun _ => rwlockInit⟩

/-- The consumer reads entry 0 while the producer writes entry 1. -/
theorem exclusion_iff_apart_two_entries :
    ∃ shm : Spmc, spmcInit 2 4 true zeroSegment = some shm ∧
      Throughout step Exclusion (start shm : State 1) [.producer, .producer, .producer, .producer,
        .consumer 0, .consumer 0, .consumer 0, .producer, .producer] := by
  refine ⟨_, rfl, ?_⟩
  apply (exclusion_iff_apart (n := 1) 2 4 zeroSegment _ rfl _).mpr
  refine stepsMeet_cons rfl nofun (stepsMeet_cons rfl ?_ (stepsMeet_cons rfl nofun
    (stepsMeet_cons rfl nofun (stepsMeet_cons rfl nofun (stepsMeet_cons rfl nofun
      (stepsMeet_cons rfl nofun (stepsMeet_cons rfl nofun (stepsMeet_cons rfl ?_ trivial))))))))
  · rintro i ⟨⟩ k
    nofun
  · rintro i ⟨⟩ k hk
    obtain rfl := Subsingleton.elim k 0
    cases hk

/-- The consumer is directed to entry 0 while the producer writes its first message there. -/
def firstMessageRun {n : ℕ} (k : Fin n) : List (Action n) :=
  [.producer, .producer, .consumer k, .consumer k, .consumer k]

theorem consumer_reads_entry_under_writing :
    ∃ (shm : Spmc) (s : State 1) (es : List (Event 1)),
      spmcInit 4 10 true zeroSegment = some shm ∧
      run step (start shm) (firstMessageRun 0) = some (s, es) ∧
      s.producer = .writing 0 ∧ s.consumer 0 = .reading 0 ∧ ¬Exclusion s :=
  ⟨_, _, _, rfl, rfl, rfl, rfl, fun h => h 0 rfl 0 rfl⟩

end CodeC.Spmc12
