import CodeC.Spmc6
import Mathlib.Order.Lattice

/-!
# The ring of `spmc6.c` after its first message

An entry at or above `size` has never been taken, so its counter is 0 and the producer cannot
pass over it. `size` therefore grows entry by entry, and the counter of an entry below `size` is
-1 until its first message is complete.
-/

namespace CodeC.Spmc6
open Library

variable {n : ℕ}

/-- Steps of a consumer that only move it to another control point. -/
inductive Pass (shm : Spmc) : ConsumerPc → ConsumerPc → Prop
  | load : Pass shm .allocating (.gotPos shm.readPos)
  | skip (i : ℕ) : Pass shm (.gotPos i) (.next i)
  | count (i : ℕ) (h : 0 ≤ shm.nconsumers i) : Pass shm (.gotPos i) (.gotCount i (shm.nconsumers i))
  | next (i : ℕ) (h : shm.size ≠ 0) : Pass shm (.next i) (.gotPos ((i + 1) % shm.size))
  | lost (i : ℕ) (old : ℤ) : Pass shm (.gotCount i old) (.next i)
  | reload (i : ℕ) : Pass shm (.moving i) (.gotRead i shm.readPos)
  | compute (i old : ℕ) (h : shm.size ≠ 0) :
      Pass shm (.gotRead i old) (.exchanging i old ((old + 1) % shm.size))
  | retry (i old new : ℕ) : Pass shm (.exchanging i old new) (.moving i)
  | loadEnd (i : ℕ) : Pass shm (.reading i) (.releasing i (shm.nconsumers i))
  | again (i : ℕ) (old : ℤ) : Pass shm (.releasing i old) (.reading i)
  | crash (pc : ConsumerPc) : Pass shm pc .crashed

/-- Every step of the system, with its guard and its effect. -/
inductive Move (s : State n) : Action n → State n → List (Event n) → Prop
  | start (hp : s.producer = .idle) :
      Move s .producer { s with producer := .scanning s.shm.writePos } [.allocStarted]
  | skip (i : ℕ) (hp : s.producer = .scanning i ∨ s.producer = .trying i)
      (hused : s.shm.nconsumers i ≠ 0) :
      Move s .producer { s with producer := .scanning ((i + 1) % s.shm.capacity) } []
  | free (i : ℕ) (hp : s.producer = .scanning i) :
      Move s .producer { s with producer := .trying i } []
  | take (i : ℕ) (hp : s.producer = .trying i) (hfree : s.shm.nconsumers i = 0) :
      Move s .producer
        { s with
          shm := { s.shm with nconsumers := Function.update s.shm.nconsumers i (-1) }
          producer := .growing i } []
  | grow (i : ℕ) (hp : s.producer = .growing i) :
      Move s .producer (producerAllocGrow s i) [.allocReturned i]
  | release (i : ℕ) (hp : s.producer = .writing i) :
      Move s .producer
        { s with
          shm := { s.shm with nconsumers := Function.update s.shm.nconsumers i 0 }
          producer := .idle } [.released i]
  | exit (i : ℕ) (hp : s.producer = .writing i) : Move s .producer { s with producer := .exited } []
  | begin (k : Fin n) (hk : s.consumer k = .idle) :
      Move s (.consumer k) (s.setConsumer k .allocating) []
  | pass (k : Fin n) (pc : ConsumerPc) (hpass : Pass s.shm (s.consumer k) pc) :
      Move s (.consumer k) (s.setConsumer k pc) []
  | acquire (k : Fin n) (i : ℕ) (hk : s.consumer k = .gotCount i (s.shm.nconsumers i)) :
      Move s (.consumer k)
        { s with
          shm := { s.shm with
            nconsumers :=
              Function.update s.shm.nconsumers i (wrap32 (s.shm.nconsumers i + 1)) }
          consumer := Function.update s.consumer k (.moving i) } []
  | exchange (k : Fin n) (i new : ℕ) (hk : s.consumer k = .exchanging i s.shm.readPos new) :
      Move s (.consumer k)
        { s with
          shm := { s.shm with readPos := new }
          consumer := Function.update s.consumer k (.reading i) } [.consumerReturned k i]
  | leave (k : Fin n) (i : ℕ) (hk : s.consumer k = .releasing i (s.shm.nconsumers i)) :
      Move s (.consumer k)
        { s with
          shm := { s.shm with
            nconsumers :=
              Function.update s.shm.nconsumers i (wrap32 (s.shm.nconsumers i - 1)) }
          consumer := Function.update s.consumer k .idle } []

lemma producer_move {s s' : State n} {es : List (Event n)}
    (h : step s .producer = some (s', es)) : Move s .producer s' es := by
  cases hp : s.producer with
  | idle =>
    simp only [step, hp, Option.some.injEq, Prod.mk.injEq] at h
    obtain ⟨rfl, rfl⟩ := h
    exact .start hp
  | scanning i =>
    simp only [step, hp, producerAllocLoad, Option.some.injEq, Prod.mk.injEq] at h
    obtain ⟨rfl, rfl⟩ := h
    split
    · next hused => exact .skip i (.inl hp) hused
    · exact .free i hp
  | trying i =>
    simp only [step, hp, producerAllocCas, Option.some.injEq, Prod.mk.injEq] at h
    obtain ⟨rfl, rfl⟩ := h
    split
    · next hfree => exact .take i hp hfree
    · next hused => exact .skip i (.inr hp) hused
  | growing i =>
    simp only [step, hp, Option.some.injEq, Prod.mk.injEq] at h
    obtain ⟨rfl, rfl⟩ := h
    exact .grow i hp
  | writing i =>
    simp only [step, hp, producerAllocEnd, Option.some.injEq] at h
    split at h
    · obtain ⟨rfl, rfl⟩ := Prod.mk.inj h
      exact .release i hp
    · obtain ⟨rfl, rfl⟩ := Prod.mk.inj h
      exact .exit i hp
  | exited => simp [step, hp] at h

lemma consumer_move {s s' : State n} {k : Fin n} {es : List (Event n)}
    (h : step s (.consumer k) = some (s', es)) : Move s (.consumer k) s' es := by
  have hpass : ∀ pc, Pass s.shm (s.consumer k) pc → (s', es) = (s.setConsumer k pc, []) →
      Move s (.consumer k) s' es := by
    rintro pc hpass heq
    obtain ⟨rfl, rfl⟩ := Prod.mk.inj heq
    exact .pass k pc hpass
  cases hk : s.consumer k with
  | idle =>
    simp only [step, hk, Option.some.injEq, Prod.mk.injEq] at h
    obtain ⟨rfl, rfl⟩ := h
    exact .begin k hk
  | allocating =>
    simp only [step, hk, Option.some.injEq] at h
    exact hpass _ (hk ▸ .load) h.symm
  | gotPos i =>
    simp only [step, hk, Option.some.injEq] at h
    refine hpass _ ?_ h.symm
    rw [hk, consumerAllocLoadCount]
    split
    · exact .skip i
    · next hcount => exact .count i (by omega)
  | next i =>
    simp only [step, hk, Option.some.injEq] at h
    refine hpass _ ?_ h.symm
    rw [hk, consumerAllocNext]
    split
    · exact .crash _
    · next hsize => exact .next i hsize
  | gotCount i old =>
    simp only [step, hk, consumerAllocCas, Option.some.injEq] at h
    split at h
    · next hold =>
      obtain ⟨rfl, rfl⟩ := Prod.mk.inj h
      rw [← hold] at hk ⊢
      exact .acquire k i hk
    · exact hpass _ (hk ▸ .lost i old) h.symm
  | moving i =>
    simp only [step, hk, Option.some.injEq] at h
    exact hpass _ (hk ▸ .reload i) h.symm
  | gotRead i old =>
    simp only [step, hk, Option.some.injEq] at h
    refine hpass _ ?_ h.symm
    rw [hk, consumerAllocMove]
    split
    · exact .crash _
    · next hsize => exact .compute i old hsize
  | exchanging i old new =>
    simp only [step, hk, consumerAllocExchange, Option.some.injEq] at h
    split at h
    · next hold =>
      obtain ⟨rfl, rfl⟩ := Prod.mk.inj h
      rw [← hold] at hk
      exact .exchange k i new hk
    · exact hpass _ (hk ▸ .retry i old new) h.symm
  | reading i =>
    simp only [step, hk, Option.some.injEq] at h
    refine hpass _ ?_ h.symm
    rw [hk, consumerAllocEndLoad]
    split
    · exact .crash _
    · exact .loadEnd i
  | releasing i old =>
    simp only [step, hk, consumerAllocEndCas, Option.some.injEq] at h
    split at h
    · next hold =>
      obtain ⟨rfl, rfl⟩ := Prod.mk.inj h
      rw [← hold] at hk ⊢
      exact .leave k i hk
    · exact hpass _ (hk ▸ .again i old) h.symm
  | crashed => simp [step, hk] at h

lemma step_move {s s' : State n} {a : Action n} {es : List (Event n)}
    (h : step s a = some (s', es)) : Move s a s' es := by
  cases a with
  | producer => exact producer_move h
  | consumer k => exact consumer_move h

/-- A consumer searches below `size`, and it holds entries that have been released before. -/
def ConsumerOk (shm : Spmc) (es : List (Event n)) : ConsumerPc → Prop
  | .idle => True
  | .allocating => 0 < shm.size
  | .gotPos i => i < shm.size
  | .next i => i < shm.size
  | .gotCount i old => i < shm.size ∧ 0 ≤ old
  | .moving i => .released i ∈ es
  | .gotRead i _ => .released i ∈ es
  | .exchanging i _ new => .released i ∈ es ∧ new < shm.size
  | .reading i => .released i ∈ es
  | .releasing i _ => .released i ∈ es
  | .crashed => True

/-- The producer searches up to `size`. -/
def ProducerOk (shm : Spmc) : ProducerPc → Prop
  | .idle => True
  | .scanning i => i ≤ shm.size ∧ i < shm.capacity
  | .trying i => i ≤ shm.size ∧ i < shm.capacity
  | .growing i => i ≤ shm.size ∧ i < shm.capacity
  | .writing i => i < shm.size
  | .exited => True

structure Inv (s : State n) (es : List (Event n)) : Prop where
  size_le : s.shm.size ≤ s.shm.capacity
  writePos_le : s.shm.writePos ≤ s.shm.size
  writePos_lt : s.shm.writePos < s.shm.capacity
  readPos_lt : s.shm.readPos < max s.shm.size 1
  producer : ProducerOk s.shm s.producer
  consumer : ∀ k, ConsumerOk s.shm es (s.consumer k)
  /-- The counter of an entry before its first message is complete. -/
  fresh : ∀ j < s.shm.capacity, .released j ∉ es →
    s.shm.nconsumers j = if j < s.shm.size ∨ s.producer = .growing j then -1 else 0
  released_lt : ∀ j, .released j ∈ es → j < s.shm.size
  returned : (∃ i, .allocReturned i ∈ es) ↔ 0 < s.shm.size

lemma ConsumerOk.mono {shm shm' : Spmc} {es es' : List (Event n)} {pc : ConsumerPc}
    (h : ConsumerOk shm es pc) (hsize : shm.size ≤ shm'.size) (hes : es ⊆ es') :
    ConsumerOk shm' es' pc := by
  cases pc with
  | idle => trivial
  | allocating => exact lt_of_lt_of_le h hsize
  | gotPos i => exact lt_of_lt_of_le h hsize
  | next i => exact lt_of_lt_of_le h hsize
  | gotCount i old => exact ⟨lt_of_lt_of_le h.1 hsize, h.2⟩
  | moving i => exact hes h
  | gotRead i old => exact hes h
  | exchanging i old new => exact ⟨hes h.1, lt_of_lt_of_le h.2 hsize⟩
  | reading i => exact hes h
  | releasing i old => exact hes h
  | crashed => trivial

lemma ProducerOk.congr {shm shm' : Spmc} {pc : ProducerPc} (h : ProducerOk shm pc)
    (hsize : shm'.size = shm.size) (hcapacity : shm'.capacity = shm.capacity) :
    ProducerOk shm' pc := by
  cases pc <;> simp_all [ProducerOk]

/-- No entry is passed over: one that is in use lies below `size`. -/
lemma lt_size_of_used {s : State n} {es : List (Event n)} (hinv : Inv s es) {i : ℕ}
    (hp : s.producer = .scanning i ∨ s.producer = .trying i) (hused : s.shm.nconsumers i ≠ 0) :
    i < s.shm.size ∧ i < s.shm.capacity := by
  have hok : i ≤ s.shm.size ∧ i < s.shm.capacity := by
    rcases hp with hp | hp
    · simpa [hp, ProducerOk] using hinv.producer
    · simpa [hp, ProducerOk] using hinv.producer
  refine ⟨?_, hok.2⟩
  by_contra hnot
  have hgrow : s.producer ≠ .growing i := by rcases hp with hp | hp <;> simp [hp]
  have hfresh := hinv.fresh i hok.2 fun hreleased => hnot (hinv.released_lt i hreleased)
  rw [if_neg (by simp [hnot, hgrow])] at hfresh
  exact hused hfresh

lemma next_ok {shm : Spmc} {i : ℕ} (hsize : shm.size ≤ shm.capacity) (hi : i < shm.size) :
    (i + 1) % shm.capacity ≤ shm.size ∧ (i + 1) % shm.capacity < shm.capacity :=
  ⟨(Nat.mod_le _ _).trans hi, Nat.mod_lt _ (by omega)⟩

/-- A step of the producer that changes only its control point. -/
lemma inv_setProducer {s : State n} {es e : List (Event n)} {pc : ProducerPc} (hinv : Inv s es)
    (hpc : ProducerOk s.shm pc) (hold : ∀ j, s.producer ≠ .growing j)
    (hnew : ∀ j, pc ≠ .growing j) (hreleased : ∀ j, .released j ∉ e)
    (hreturned : ∀ j, .allocReturned j ∉ e) : Inv { s with producer := pc } (es ++ e) where
  size_le := hinv.size_le
  writePos_le := hinv.writePos_le
  writePos_lt := hinv.writePos_lt
  readPos_lt := hinv.readPos_lt
  producer := hpc
  consumer k := (hinv.consumer k).mono (Nat.le_refl _) (List.subset_append_left _ _)
  fresh j hj hnot := by
    have hfresh := hinv.fresh j hj fun h => hnot (List.mem_append_left _ h)
    simpa [hold j, hnew j] using hfresh
  released_lt j hj := hinv.released_lt j ((List.mem_append.mp hj).resolve_right (hreleased j))
  returned := by
    simpa [List.mem_append, hreturned] using hinv.returned

lemma inv_take {s : State n} {es : List (Event n)} {i : ℕ} (hinv : Inv s es)
    (hp : s.producer = .trying i) (hfree : s.shm.nconsumers i = 0) :
    Inv
      { s with
        shm := { s.shm with nconsumers := Function.update s.shm.nconsumers i (-1) }
        producer := .growing i } es where
  size_le := hinv.size_le
  writePos_le := hinv.writePos_le
  writePos_lt := hinv.writePos_lt
  readPos_lt := hinv.readPos_lt
  producer := by simpa [hp, ProducerOk] using hinv.producer
  consumer k := (hinv.consumer k).mono (Nat.le_refl _) (List.Subset.refl _)
  fresh j hj hnot := by
    have hfresh := hinv.fresh j hj hnot
    rcases eq_or_ne j i with rfl | hne
    · simp
    · simpa [hp, Function.update_of_ne hne, hne.symm] using hfresh
  released_lt := hinv.released_lt
  returned := hinv.returned

/-- `size` becomes the index after the entry taken, if it is not larger already. -/
lemma size_grow {s : State n} {es : List (Event n)} {i : ℕ} (hinv : Inv s es)
    (hp : s.producer = .growing i) :
    i < (producerAllocGrow s i).shm.size ∧ s.shm.size ≤ (producerAllocGrow s i).shm.size ∧
      (producerAllocGrow s i).shm.size ≤ s.shm.size + 1 ∧
      (producerAllocGrow s i).shm.size ≤ s.shm.capacity ∧
      ∀ j, j < (producerAllocGrow s i).shm.size ↔ j < s.shm.size ∨ j = i := by
  have hok : i ≤ s.shm.size ∧ i < s.shm.capacity := by
    simpa [hp, ProducerOk] using hinv.producer
  have hle := hinv.size_le
  simp only [producerAllocGrow]
  split
  · exact ⟨by omega, by omega, by omega, by omega, fun j => by omega⟩
  · exact ⟨by omega, by omega, by omega, by omega, fun j => by omega⟩

lemma inv_grow {s : State n} {es : List (Event n)} {i : ℕ} (hinv : Inv s es)
    (hp : s.producer = .growing i) :
    Inv (producerAllocGrow s i) (es ++ [.allocReturned i]) := by
  obtain ⟨hi, hmono, -, hle, hlt⟩ := size_grow hinv hp
  have hnext := next_ok hle hi
  refine ⟨hle, hnext.1, hnext.2, ?_, hi, fun k => ?_, fun j hj hnot => ?_, fun j hj => ?_, ?_⟩
  · exact lt_of_lt_of_le hinv.readPos_lt (max_le_max hmono (Nat.le_refl 1))
  · exact (hinv.consumer k).mono hmono (List.subset_append_left _ _)
  · have hfresh := hinv.fresh j hj fun h => hnot (List.mem_append_left _ h)
    have hsame : (j < (producerAllocGrow s i).shm.size ∨
        (producerAllocGrow s i).producer = .growing j) ↔
          (j < s.shm.size ∨ s.producer = .growing j) := by
      rw [hlt j, hp, ProducerPc.growing.injEq, eq_comm]
      exact or_iff_left (by simp [producerAllocGrow])
    simp only [hsame]
    exact hfresh
  · exact lt_of_lt_of_le (hinv.released_lt j (by simpa using hj)) hmono
  · exact iff_of_true ⟨i, by simp⟩ (by omega)

lemma inv_release {s : State n} {es : List (Event n)} {i : ℕ} (hinv : Inv s es)
    (hp : s.producer = .writing i) :
    Inv
      { s with
        shm := { s.shm with nconsumers := Function.update s.shm.nconsumers i 0 }
        producer := .idle } (es ++ [.released i]) where
  size_le := hinv.size_le
  writePos_le := hinv.writePos_le
  writePos_lt := hinv.writePos_lt
  readPos_lt := hinv.readPos_lt
  producer := trivial
  consumer k := (hinv.consumer k).mono (Nat.le_refl _) (List.subset_append_left _ _)
  fresh j hj hnot := by
    have hfresh := hinv.fresh j hj fun h => hnot (List.mem_append_left _ h)
    have hne : j ≠ i := by
      rintro rfl
      simp at hnot
    simpa [hp, Function.update_of_ne hne] using hfresh
  released_lt j hj := by
    rcases List.mem_append.mp hj with hj | hj
    · exact hinv.released_lt j hj
    · obtain rfl : j = i := by simpa using hj
      simpa [hp, ProducerOk] using hinv.producer
  returned := by simpa using hinv.returned

/-- A step of a consumer leaves the entries alone that have not been released. -/
lemma inv_consumer {s : State n} {es e : List (Event n)} {k : Fin n} {pc : ConsumerPc}
    {nconsumers : ℕ → ℤ} {readPos : ℕ} (hinv : Inv s es) (hpc : ConsumerOk s.shm es pc)
    (hread : readPos < max s.shm.size 1)
    (hcounts : ∀ j, .released j ∉ es → nconsumers j = s.shm.nconsumers j)
    (hreleased : ∀ j, .released j ∉ e) (hreturned : ∀ j, .allocReturned j ∉ e) :
    Inv
      { s with
        shm := { s.shm with nconsumers := nconsumers, readPos := readPos }
        consumer := Function.update s.consumer k pc } (es ++ e) where
  size_le := hinv.size_le
  writePos_le := hinv.writePos_le
  writePos_lt := hinv.writePos_lt
  readPos_lt := hread
  producer := hinv.producer.congr rfl rfl
  consumer l := by
    rcases eq_or_ne l k with rfl | hne
    · simp only [Function.update_self]
      exact hpc.mono (Nat.le_refl _) (List.subset_append_left _ _)
    · simp only [Function.update_of_ne hne]
      exact (hinv.consumer l).mono (Nat.le_refl _) (List.subset_append_left _ _)
  fresh j hj hnot := by
    have hnot' : Event.released j ∉ es := fun h => hnot (List.mem_append_left _ h)
    exact (hcounts j hnot').trans (hinv.fresh j hj hnot')
  released_lt j hj := hinv.released_lt j ((List.mem_append.mp hj).resolve_right (hreleased j))
  returned := by
    simpa [List.mem_append, hreturned] using hinv.returned

lemma consumerOk_pass {s : State n} {es : List (Event n)} {k : Fin n} {pc : ConsumerPc}
    (hinv : Inv s es) (hpass : Pass s.shm (s.consumer k) pc) : ConsumerOk s.shm es pc := by
  have hok := hinv.consumer k
  generalize s.consumer k = old at hpass hok
  cases hpass with
  | load =>
    have hsize : 0 < s.shm.size := hok
    simpa [ConsumerOk, Nat.max_eq_left hsize] using hinv.readPos_lt
  | skip i => exact hok
  | count i h => exact ⟨hok, h⟩
  | next i h => exact Nat.mod_lt _ (Nat.pos_of_ne_zero h)
  | lost i old => exact hok.1
  | reload i => exact hok
  | compute i old h => exact ⟨hok, Nat.mod_lt _ (Nat.pos_of_ne_zero h)⟩
  | retry i old new => exact hok.1
  | loadEnd i => exact hok
  | again i old => exact hok
  | crash pc => trivial

/-- An entry below `size` whose counter is not negative has been released. -/
lemma released_of_nonneg {s : State n} {es : List (Event n)} (hinv : Inv s es) {i : ℕ}
    (hi : i < s.shm.size) (hcount : 0 ≤ s.shm.nconsumers i) : .released i ∈ es := by
  by_contra hnot
  have hfresh := hinv.fresh i (lt_of_lt_of_le hi hinv.size_le) hnot
  rw [if_pos (.inl hi)] at hfresh
  omega

lemma ne_of_not_released {es : List (Event n)} {i j : ℕ} (hi : .released i ∈ es)
    (hj : .released j ∉ es) : j ≠ i := by
  rintro rfl
  exact hj hi

/-- Every `consumer_alloc` begins after the first `producer_alloc` has returned. -/
def AfterFirst (s : State n) (es : List (Event n)) (a : Action n) : Prop :=
  ∀ k, a = .consumer k → s.consumer k = .idle → ∃ i, .allocReturned i ∈ es

lemma inv_step {s s' : State n} {es e : List (Event n)} {a : Action n}
    (hafter : AfterFirst s es a) (hinv : Inv s es) (h : step s a = some (s', e)) :
    Inv s' (es ++ e) := by
  cases step_move h with
  | start hp =>
    exact inv_setProducer hinv ⟨hinv.writePos_le, hinv.writePos_lt⟩ (by simp [hp]) (by simp)
      (by simp) (by simp)
  | skip i hp hused =>
    have hlt := lt_size_of_used hinv hp hused
    exact inv_setProducer hinv (next_ok hinv.size_le hlt.1)
      (by rcases hp with hp | hp <;> simp [hp]) (by simp) (by simp) (by simp)
  | free i hp =>
    have hok : ProducerOk s.shm (.scanning i) := hp ▸ hinv.producer
    exact inv_setProducer hinv hok (by simp [hp]) (by simp) (by simp) (by simp)
  | take i hp hfree => simpa using inv_take hinv hp hfree
  | grow i hp => exact inv_grow hinv hp
  | release i hp => exact inv_release hinv hp
  | exit i hp => exact inv_setProducer hinv trivial (by simp [hp]) (by simp) (by simp) (by simp)
  | begin k hk =>
    have hsize := hinv.returned.mp (hafter k rfl hk)
    exact inv_consumer hinv hsize hinv.readPos_lt (fun _ _ => rfl) (by simp) (by simp)
  | pass k pc hpass =>
    exact inv_consumer hinv (consumerOk_pass hinv hpass) hinv.readPos_lt (fun _ _ => rfl)
      (by simp) (by simp)
  | acquire k i hk =>
    have hok : ConsumerOk s.shm es (.gotCount i (s.shm.nconsumers i)) := hk ▸ hinv.consumer k
    have hreleased := released_of_nonneg hinv hok.1 hok.2
    exact inv_consumer hinv hreleased hinv.readPos_lt
      (fun j hnot => Function.update_of_ne (ne_of_not_released hreleased hnot) _ _)
      (by simp) (by simp)
  | exchange k i new hk =>
    have hok : ConsumerOk s.shm es (.exchanging i s.shm.readPos new) := hk ▸ hinv.consumer k
    exact inv_consumer hinv hok.1 (lt_of_lt_of_le hok.2 (le_max_left _ _)) (fun _ _ => rfl)
      (by simp) (by simp)
  | leave k i hk =>
    have hreleased : ConsumerOk s.shm es (.releasing i (s.shm.nconsumers i)) := hk ▸ hinv.consumer k
    exact inv_consumer hinv trivial hinv.readPos_lt
      (fun j hnot => Function.update_of_ne (ne_of_not_released hreleased hnot) _ _)
      (by simp) (by simp)

lemma inv_start {entryNum bufSize : ℤ} (hmin : 1 ≤ entryNum) {shm : Spmc}
    (hinit : spmcInit entryNum bufSize true zeroFilled = some shm) :
    Inv (start shm : State n) [] ∧ shm.capacity = entryNum.toNat := by
  simp only [spmcInit, zeroFilled, if_true, Option.ite_none_left_eq_some,
    Option.some.injEq] at hinit
  obtain ⟨-, rfl⟩ := hinit
  refine ⟨⟨?_, ?_, ?_, ?_, trivial, fun _ => trivial, ?_, ?_, ?_⟩, rfl⟩
  · exact Nat.zero_le _
  · exact Nat.le_refl _
  · simp only [start]
    omega
  · simp [start]
  · intro j hj _
    simp only [start] at hj ⊢
    simp [hj]
  · simp
  · simp [start]

lemma capacity_step {s s' : State n} {a : Action n} {es : List (Event n)}
    (h : step s a = some (s', es)) : s'.shm.capacity = s.shm.capacity := by
  cases step_move h <;> rfl

/-- The number of calls of `producer_alloc` that return. -/
def returns (es : List (Event n)) : ℕ :=
  es.countP fun
    | .allocReturned _ => true
    | _ => false

/-- `size` is stored only when `producer_alloc` returns, and grows by one at most. -/
lemma size_step {s s' : State n} {es e : List (Event n)} {a : Action n} (hinv : Inv s es)
    (h : step s a = some (s', e)) :
    s.shm.size ≤ s'.shm.size ∧ s'.shm.size ≤ s.shm.size + returns e := by
  cases step_move h with
  | grow i hp =>
    obtain ⟨-, hmono, hone, -, -⟩ := size_grow hinv hp
    exact ⟨hmono, hone⟩
  | _ => exact ⟨Nat.le_refl _, Nat.le_add_right _ _⟩

lemma size_run {s t : State n} {es fs : List (Event n)} {as : List (Action n)} (hinv : Inv s es)
    (hafter : EachStep step (fun u gs a => AfterFirst u (es ++ gs) a) s as)
    (hrun : run step s as = some (t, fs)) :
    s.shm.size ≤ t.shm.size ∧ t.shm.size ≤ s.shm.size + returns fs := by
  have hgrown := run_invariant_eachStep step _
    (fun u gs => Inv u (es ++ gs) ∧
      s.shm.size ≤ u.shm.size ∧ u.shm.size ≤ s.shm.size + returns gs)
    (fun u gs a u' e hafter ⟨hu, hmono, hle⟩ hs => by
      obtain ⟨hmono', hle'⟩ := size_step hu hs
      refine ⟨?_, hmono.trans hmono', ?_⟩
      · rw [← List.append_assoc]
        exact inv_step hafter hu hs
      · rw [returns, List.countP_append, ← returns, ← returns]
        omega)
    hafter ⟨by simpa using hinv, Nat.le_refl _, Nat.le_add_right _ _⟩ hrun
  exact hgrown.2

/-- The consumer is about to compute a remainder modulo `size`. -/
def ConsumerPc.DividesBySize : ConsumerPc → Prop
  | .next _ => True
  | .gotRead _ _ => True
  | _ => False

lemma size_ne_zero_of_dividesBySize {s : State n} {es : List (Event n)} (hinv : Inv s es)
    {k : Fin n} (h : (s.consumer k).DividesBySize) : s.shm.size ≠ 0 := by
  have hok := hinv.consumer k
  cases hk : s.consumer k with
  | next i =>
    rw [hk] at hok
    exact Nat.ne_of_gt (Nat.zero_lt_of_lt hok)
  | gotRead i old =>
    rw [hk] at hok
    exact Nat.ne_of_gt (Nat.zero_lt_of_lt (hinv.released_lt i hok))
  | _ => simp [hk, ConsumerPc.DividesBySize] at h

/-- `consumer_alloc` returns entries that have been released. -/
lemma released_of_consumerReturned {s s' : State n} {es e : List (Event n)} {a : Action n}
    {k : Fin n} {i : ℕ} (hinv : Inv s es) (h : step s a = some (s', e))
    (hk : .consumerReturned k i ∈ e) : .released i ∈ es := by
  cases step_move h with
  | exchange l j new hl =>
    have hok : ConsumerOk s.shm es (.exchanging j s.shm.readPos new) := hl ▸ hinv.consumer l
    obtain ⟨rfl, rfl⟩ : k = l ∧ i = j := by simpa using hk
    exact hok.1
  | _ => simp at hk

/-- In every run in which the consumers begin after the first `producer_alloc` has returned, from
then on `read_pos` lies below `size`, and `size` within the capacity. No remainder modulo 0 is
computed, `size` grows by at most one per `producer_alloc`, and `consumer_alloc` returns only
entries whose first message is complete. -/
theorem ring_sound_after_first_alloc {entryNum bufSize : ℤ} (hmin : 1 ≤ entryNum) {shm : Spmc}
    (hinit : spmcInit entryNum bufSize true zeroFilled = some shm) {as : List (Action n)}
    (hafter : EachStep step AfterFirst (start shm) as) {s : State n} {es : List (Event n)}
    (hrun : run step (start shm) as = some (s, es)) :
    ((∃ i, .allocReturned i ∈ es) → s.shm.readPos < s.shm.size) ∧
    ((¬∃ i, .allocReturned i ∈ es) → s.shm.readPos = 0 ∧ s.shm.size = 0) ∧
    s.shm.size ≤ s.shm.capacity ∧ s.shm.capacity = entryNum.toNat ∧
    (∀ k, (s.consumer k).DividesBySize → s.shm.size ≠ 0) ∧
    (∀ bs cs u fs gs, as = bs ++ cs → run step (start shm) bs = some (u, fs) →
      run step u cs = some (s, gs) →
        u.shm.size ≤ s.shm.size ∧ s.shm.size ≤ u.shm.size + returns gs) ∧
    EachStep step (fun u fs a => ∀ u' e k i, step u a = some (u', e) →
      .consumerReturned k i ∈ e → .released i ∈ fs) (start shm) as := by
  obtain ⟨hstart, hcapacity⟩ := inv_start (n := n) hmin hinit
  have hreached : ∀ {bs cs u fs}, as = bs ++ cs → run step (start shm) bs = some (u, fs) →
      Inv u fs := by
    rintro bs cs u fs rfl hu
    exact run_invariant_eachStep step AfterFirst Inv (fun _ _ _ _ _ => inv_step)
      (eachStep_left hafter) hstart hu
  have hinv := hreached (List.append_nil as).symm hrun
  have hread := hinv.readPos_lt
  refine ⟨fun hreturned => ?_, fun hnone => ?_, hinv.size_le, ?_,
    fun k => size_ne_zero_of_dividesBySize hinv, ?_, ?_⟩
  · have hsize := hinv.returned.mp hreturned
    omega
  · have hsize : ¬0 < s.shm.size := fun h => hnone (hinv.returned.mpr h)
    omega
  · have hconst := run_invariant_state step (fun t => t.shm.capacity = shm.capacity)
      (fun _ _ _ _ ht hs => (capacity_step hs).trans ht) rfl hrun
    exact hconst.trans hcapacity
  · rintro bs cs u fs gs rfl hu hs
    exact size_run (hreached rfl hu) (eachStep_right hafter hu) hs
  · intro bs a cs u fs has hu u' e k i hs hk
    exact released_of_consumerReturned (hreached has hu) hs hk

/-- One message is written, and one consumer takes it. -/
def firstMessage : List (Action 1) :=
  [.producer, .producer, .producer, .producer, .producer, .consumer 0, .consumer 0, .consumer 0,
    .consumer 0, .consumer 0, .consumer 0, .consumer 0]

lemma afterFirst_firstMessage {shm : Spmc}
    (hinit : spmcInit 2 10 true zeroFilled = some shm) :
    EachStep step AfterFirst (start shm) firstMessage := by
  obtain rfl := Option.some.inj hinit
  refine eachStep_cons rfl nofun (eachStep_cons rfl nofun (eachStep_cons rfl nofun
    (eachStep_cons rfl nofun (eachStep_cons rfl nofun (eachStep_cons rfl ?_ (eachStep_cons rfl ?_
      (eachStep_cons rfl ?_ (eachStep_cons rfl ?_ (eachStep_cons rfl ?_ (eachStep_cons rfl ?_
        (eachStep_cons rfl ?_ (eachStep_nil _ _ _))))))))))))
  all_goals
    intro k _ _
    exact ⟨0, List.mem_cons_of_mem _ List.mem_cons_self⟩

theorem ring_sound_first_message :
    ∃ (shm : Spmc) (s : State 1) (es : List (Event 1)),
      spmcInit 2 10 true zeroFilled = some shm ∧
      run step (start shm) firstMessage = some (s, es) ∧ .consumerReturned 0 0 ∈ es ∧
      s.shm.readPos < s.shm.size := by
  have hmin : (1 : ℤ) ≤ 2 := by decide
  refine ⟨_, _, _, rfl, rfl, ?_, ?_⟩
  · exact List.mem_cons_of_mem _
      (List.mem_cons_of_mem _ (List.mem_cons_of_mem _ List.mem_cons_self))
  · exact (ring_sound_after_first_alloc hmin rfl (afterFirst_firstMessage rfl) rfl).1
      ⟨0, List.mem_cons_of_mem _ List.mem_cons_self⟩

end CodeC.Spmc6
