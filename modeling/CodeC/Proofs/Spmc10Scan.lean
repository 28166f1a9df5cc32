import CodeC.Proofs.Spmc10History
import CodeC.Library.Ring

/-!
# The scan of `producer_alloc` in `spmc10.c` is bounded

While the producer scans, `read_pos` does not move, so a consumer can block at most one entry
other than the published one: the entry it had loaded before the scan reached it. Each failed
compare-exchange is charged to a consumer, and no consumer is charged twice.
-/

namespace CodeC.Spmc10
open Library

variable {n : ℕ}

/-- A consumer that cannot block an entry the scan has still to try. -/
def Spent (s : State n) (tried : ℕ) (k : Fin n) : Prop :=
  ∀ i, (s.consumer k).target = some i →
    i = s.shm.readPos ∨ ∃ j, j < tried ∧ i = (s.shm.writePos + j) % s.shm.capacity

structure ScanInv (s : State n) (h : History n) : Prop where
  next : ∀ i, s.producer = .writing i ∨ s.producer = .ending i →
    s.shm.writePos = (i + 1) % s.shm.capacity
  adjacent : 1 ≤ h.published → (s.producer = .idle ∨ ∃ i, s.producer = .scanning i) →
    s.shm.writePos = (s.shm.readPos + 1) % s.shm.capacity
  scan : 1 ≤ h.published → ∀ i, s.producer = .scanning i →
    i = (s.shm.writePos + h.failedCas) % s.shm.capacity ∧
    ∃ charged : Finset (Fin n), charged.card = h.failedCas ∧
      ∀ k ∈ charged, Spent s h.failedCas k

lemma scanInv_start (shm : Spmc) : ScanInv (start shm : State n) History.empty := by
  refine ⟨?_, ?_, ?_⟩
  · simp [start]
  · intro hp
    simp [History.empty] at hp
  · intro hp
    simp [History.empty] at hp

/-- The scan has not come back to the published entry before it made `capacity - 1` attempts. -/
lemma ScanInv.ne_readPos {s : State n} {h : History n} (hinv : Inv s) (hs : ScanInv s h)
    (hpub : 1 ≤ h.published) {i : ℕ} (hp : s.producer = .scanning i)
    (hlt : h.failedCas + 1 < s.shm.capacity) : i ≠ s.shm.readPos := by
  have hw := hs.adjacent hpub (Or.inr ⟨i, hp⟩)
  obtain ⟨hi, -⟩ := hs.scan hpub i hp
  have hlap : (s.shm.readPos + (h.failedCas + 1)) % s.shm.capacity = i := by
    rw [hi, hw, ring_index_succ]
  intro he
  have hback : (s.shm.readPos + (h.failedCas + 1)) % s.shm.capacity =
      (s.shm.readPos + 0) % s.shm.capacity := by
    rw [hlap, he, Nat.add_zero, Nat.mod_eq_of_lt hinv.readPos_lt]
  have := ring_index_inj hlt hinv.capacity_pos hback
  omega

/-- A failed attempt is charged to a consumer that was not charged before. -/
lemma ScanInv.charge {s : State n} {h : History n} (hinv : Inv s) (hs : ScanInv s h)
    (hpub : 1 ≤ h.published) {i : ℕ} (hp : s.producer = .scanning i)
    (hw : s.shm.nconsumers i ≠ 0) (hlt : h.failedCas + 1 < s.shm.capacity) :
    ∃ charged : Finset (Fin n), charged.card = h.failedCas + 1 ∧
      ∀ k ∈ charged, Spent s (h.failedCas + 1) k := by
  obtain ⟨hi, charged, hcard, hspent⟩ := hs.scan hpub i hp
  have hicap : i < s.shm.capacity := hinv.producer_lt i (by simp [hp, ProducerPc.entry])
  obtain ⟨k, hk⟩ := hinv.table.exists_held hicap (by simp [hp]) hw
  have htarget : (s.consumer k).target = some i := by
    rw [(consumer_held_eq_some _ _).mp hk]
    rfl
  have hnew : k ∉ charged := by
    intro hmem
    rcases hspent k hmem i htarget with he | ⟨j, hj, he⟩
    · exact hs.ne_readPos hinv hpub hp hlt he
    · have := ring_index_inj (by omega) (by omega) (hi.symm.trans he)
      omega
  refine ⟨insert k charged, by rw [Finset.card_insert_of_notMem hnew, hcard], ?_⟩
  intro l hl j hj
  rcases Finset.mem_insert.mp hl with rfl | hl
  · rw [htarget] at hj
    exact Or.inr ⟨h.failedCas, by omega, by rw [← Option.some.inj hj, hi]⟩
  · rcases hspent l hl j hj with he | ⟨m, hm, he⟩
    · exact Or.inl he
    · exact Or.inr ⟨m, by omega, he⟩

/-- With two entries more than consumers the attempts never use up the ring. -/
lemma ScanInv.failedCas_le {s : State n} {h : History n} (hs : ScanInv s h)
    (hpub : 1 ≤ h.published) {i : ℕ} (hp : s.producer = .scanning i) : h.failedCas ≤ n := by
  obtain ⟨-, charged, hcard, -⟩ := hs.scan hpub i hp
  rw [← hcard]
  exact card_finset_fin_le charged

/-- Consumer steps: the new target is the published entry or one the consumer had already. -/
lemma scanInv_consumer {s : State n} {h h' : History n} (hs : ScanInv s h) (k : Fin n)
    (pc : ConsumerPc) (nconsumers : ℕ → ℤ) (hpub : h'.published = h.published)
    (hfail : h'.failedCas = h.failedCas)
    (hpc : ∀ i, pc.target = some i → i = s.shm.readPos ∨ (s.consumer k).target = some i) :
    ScanInv { s with
      shm := { s.shm with nconsumers := nconsumers }
      consumer := Function.update s.consumer k pc } h' := by
  refine ⟨hs.next, ?_, ?_⟩
  · rw [hpub]
    exact hs.adjacent
  · rw [hpub, hfail]
    intro hp i hi
    obtain ⟨hpos, charged, hcard, hspent⟩ := hs.scan hp i hi
    refine ⟨hpos, charged, hcard, ?_⟩
    intro l hl j hj
    by_cases hlk : l = k
    · subst hlk
      rcases hpc j (by simpa using hj) with he | he
      · exact Or.inl he
      · exact hspent l hl j he
    · exact hspent l hl j (by simpa [hlk] using hj)

theorem scanInv_move {debug : Bool} {s s' : State n} {a : Action n} {es : List (Event n)}
    {h : History n} (hcap : n + 2 ≤ s.shm.capacity) (hinv : Inv s) (hs : ScanInv s h)
    (hm : Move debug s a s' es) : ScanInv s' (observe record h es) := by
  cases hm with
  | alloc hp =>
    refine ⟨by simp, fun hpub _ => hs.adjacent hpub (Or.inl hp), ?_⟩
    intro hpub i hi
    simp only [ProducerPc.scanning.injEq] at hi
    subst hi
    refine ⟨?_, ∅, rfl, by simp⟩
    simp [record, Nat.mod_eq_of_lt hinv.writePos_lt]
  | casWon i hp hw =>
    refine ⟨?_, by simp, by simp⟩
    intro j hj
    simp only [ProducerPc.writing.injEq, reduceCtorEq, or_false] at hj
    subst hj
    rfl
  | casLost i hp hw =>
    refine ⟨by simp, fun hpub _ => hs.adjacent hpub (Or.inr ⟨i, hp⟩), ?_⟩
    intro hpub j hj
    simp only [ProducerPc.scanning.injEq] at hj
    subst hj
    have hle := hs.failedCas_le hpub hp
    have hcharge := hs.charge hinv hpub hp hw (by omega)
    refine ⟨?_, hcharge⟩
    obtain ⟨hi, -⟩ := hs.scan hpub i hp
    change (i + 1) % s.shm.capacity = (s.shm.writePos + (h.failedCas + 1)) % s.shm.capacity
    rw [hi, Nat.mod_add_mod]
    rfl
  | write i off byte hp ho => exact ⟨hs.next, hs.adjacent, hs.scan⟩
  | allocEnd i hp =>
    have hnext := hs.next i (Or.inl hp)
    by_cases hbad : debug ∧ s.shm.nconsumers i ≠ -1
    · rw [if_pos hbad]
      exact ⟨by simp, by simp, by simp⟩
    · rw [if_neg hbad]
      refine ⟨?_, by simp, by simp⟩
      intro j hj
      simp only [reduceCtorEq, ProducerPc.ending.injEq, false_or] at hj
      subst hj
      exact hnext
  | publish i hp => exact ⟨by simp, fun _ _ => hs.next i (Or.inr hp), by simp⟩
  | call k hk =>
    exact scanInv_consumer hs k _ s.shm.nconsumers rfl rfl (by simp [ConsumerPc.target])
  | loadPos k hk =>
    refine scanInv_consumer hs k _ s.shm.nconsumers rfl rfl ?_
    intro i hi
    exact Or.inl (Option.some.inj hi).symm
  | retry k i hk hw =>
    exact scanInv_consumer hs k _ s.shm.nconsumers rfl rfl (by simp [ConsumerPc.target])
  | loadCount k i hk hw =>
    refine scanInv_consumer hs k _ s.shm.nconsumers rfl rfl ?_
    intro j hj
    exact Or.inr (by simpa [hk, ConsumerPc.target] using hj)
  | acquire k i old hk hw =>
    refine scanInv_consumer hs k _ _ rfl rfl ?_
    intro j hj
    exact Or.inr (by simpa [hk, ConsumerPc.target] using hj)
  | lost k i old hk hw =>
    exact scanInv_consumer hs k _ s.shm.nconsumers rfl rfl (by simp [ConsumerPc.target])
  | release k i hk =>
    refine scanInv_consumer hs k _ _ rfl rfl ?_
    intro j hj
    by_cases hneg : wrap32 (s.shm.nconsumers i - 1) < 0 <;> simp [hneg, ConsumerPc.target] at hj

theorem scanInv_run {debug : Bool} {entryNum bufSize : ℤ} {seg shm : Spmc}
    (hinit : spmcInit entryNum bufSize true seg = some shm) (hn : (n : ℤ) + 2 ≤ entryNum)
    {as : List (Action n)} {s : State n} {es : List (Event n)}
    (hrun : run (step debug) (start shm) as = some (s, es)) :
    Inv s ∧ n + 2 ≤ s.shm.capacity ∧ ScanInv s (history es) := by
  have hentry := (spmcInit_spec hinit).1
  refine run_invariant (step debug) record
    (fun s h => Inv s ∧ n + 2 ≤ s.shm.capacity ∧ ScanInv s h) ?_
    ⟨inv_start hinit, ?_, scanInv_start shm⟩ hrun
  · rintro s h a s' es ⟨hinv, hcap, hs⟩ hstep
    have hm := step_move hstep
    exact ⟨inv_move hinv hm, (capacity_move hm).symm ▸ hcap, scanInv_move hcap hinv hs hm⟩
  · simp only [start]
    omega

def Event.isCasFailed : Event n → Bool
  | .casFailed _ => true
  | _ => false

/-- What a step can do while the producer scans. -/
lemma scanning_move {debug : Bool} {s s' : State n} {a : Action n} {es : List (Event n)}
    (h : History n) {i : ℕ} (hp : s.producer = .scanning i) (hm : Move debug s a s' es) :
    (a = .producer ∧ es = [.producerAcquired i]) ∨
    (a = .producer ∧ es = [.casFailed i] ∧ s'.producer = .scanning ((i + 1) % s.shm.capacity) ∧
      s'.shm = s.shm) ∨
    (a ≠ .producer ∧ s'.producer = .scanning i ∧ s'.shm.readPos = s.shm.readPos ∧
      (∀ l, .producerAcquired l ∉ es) ∧ es.countP Event.isCasFailed = 0 ∧
      (observe record h es).failedCas = h.failedCas ∧
      (observe record h es).published = h.published) := by
  cases hm with
  | alloc hp' => simp [hp] at hp'
  | casWon j hp' hw =>
    rw [hp] at hp'
    cases hp'
    exact Or.inl ⟨rfl, rfl⟩
  | casLost j hp' hw =>
    rw [hp] at hp'
    cases hp'
    exact Or.inr (Or.inl ⟨rfl, rfl, rfl, rfl⟩)
  | write j off byte hp' ho => simp [hp] at hp'
  | allocEnd j hp' => simp [hp] at hp'
  | publish j hp' => simp [hp] at hp'
  | call k hk => exact Or.inr (Or.inr ⟨by simp, hp, rfl, by simp, rfl, rfl, rfl⟩)
  | loadPos k hk => exact Or.inr (Or.inr ⟨by simp, hp, rfl, by simp, rfl, rfl, rfl⟩)
  | retry k j hk hw => exact Or.inr (Or.inr ⟨by simp, hp, rfl, by simp, rfl, rfl, rfl⟩)
  | loadCount k j hk hw => exact Or.inr (Or.inr ⟨by simp, hp, rfl, by simp, rfl, rfl, rfl⟩)
  | acquire k j old hk hw => exact Or.inr (Or.inr ⟨by simp, hp, rfl, by simp, rfl, rfl, rfl⟩)
  | lost k j old hk hw => exact Or.inr (Or.inr ⟨by simp, hp, rfl, by simp, rfl, rfl, rfl⟩)
  | release k j hk => exact Or.inr (Or.inr ⟨by simp, hp, rfl, by simp, rfl, rfl, rfl⟩)

/-- The outcome of a scan that has failed `failed` times and goes on for `attempts` more
compare-exchanges in a ring of `capacity` entries, `readPos` being the published one. -/
def ScanOutcome (capacity readPos failed attempts : ℕ) (fs : List (Event n)) : Prop :=
  ((∀ l, .producerAcquired l ∉ fs) ∧ failed + attempts + 2 ≤ capacity) ∨
  ∃ pre j post, fs = pre ++ .producerAcquired j :: post ∧ (∀ l, .producerAcquired l ∉ pre) ∧
    failed + pre.countP Event.isCasFailed + 2 ≤ capacity ∧ j ≠ readPos

lemma ScanOutcome.cons {capacity readPos failed failed' attempts attempts' : ℕ}
    {es fs : List (Event n)} (hes : ∀ l, .producerAcquired l ∉ es)
    (hfail : failed + es.countP Event.isCasFailed = failed')
    (hatt : failed + attempts = failed' + attempts')
    (h : ScanOutcome capacity readPos failed' attempts' fs) :
    ScanOutcome capacity readPos failed attempts (es ++ fs) := by
  rcases h with ⟨hno, hle⟩ | ⟨pre, j, post, rfl, hno, hle, hj⟩
  · refine Or.inl ⟨?_, by omega⟩
    intro l hl
    rcases List.mem_append.mp hl with hl | hl
    · exact hes l hl
    · exact hno l hl
  · refine Or.inr ⟨es ++ pre, j, post, by simp, ?_, ?_, hj⟩
    · intro l hl
      rcases List.mem_append.mp hl with hl | hl
      · exact hes l hl
      · exact hno l hl
    · rw [List.countP_append]
      omega

theorem scan_outcome {debug : Bool} {s t : State n} {h : History n} {bs : List (Action n)}
    {fs : List (Event n)} {i : ℕ} (hinv : Inv s) (hcap : n + 2 ≤ s.shm.capacity)
    (hs : ScanInv s h) (hpub : 1 ≤ h.published) (hp : s.producer = .scanning i)
    (hrun : run (step debug) s bs = some (t, fs)) :
    ScanOutcome s.shm.capacity s.shm.readPos h.failedCas (bs.count .producer) fs := by
  induction bs generalizing s h fs i with
  | nil =>
    simp only [run_nil, Option.some.injEq, Prod.mk.injEq] at hrun
    obtain ⟨rfl, rfl⟩ := hrun
    have hle := hs.failedCas_le hpub hp
    exact Or.inl ⟨by simp, by simpa using by omega⟩
  | cons a bs ih =>
    obtain ⟨s', e, f, hstep, hrest, rfl⟩ := (run_cons_iff _ _ _ _ _ _).mp hrun
    have hm := step_move hstep
    have hinv' := inv_move hinv hm
    have hs' := scanInv_move hcap hinv hs hm
    have hcap' := capacity_move hm
    have hle := hs.failedCas_le hpub hp
    rcases scanning_move h hp hm with ⟨-, rfl⟩ | ⟨rfl, rfl, hp', hshm⟩ |
      ⟨ha, hp', hread, hno, hcount, hfail, hpub'⟩
    · exact Or.inr ⟨[], i, f, rfl, by simp, by simpa using by omega,
        hs.ne_readPos hinv hpub hp (by omega)⟩
    · have hrec := ih hinv' (by omega) hs' hpub hp' hrest
      rw [hshm] at hrec
      refine ScanOutcome.cons (by simp) rfl ?_ hrec
      simp only [List.count_cons_self, List.countP_cons, List.countP_nil, Event.isCasFailed]
      simp only [if_true]
      omega
    · have hrec := ih hinv' (by omega) hs' (by omega) hp' hrest
      rw [hcap', hread, hfail] at hrec
      refine ScanOutcome.cons hno (by omega) ?_ hrec
      rw [List.count_cons_of_ne ha]

/-- With at least two entries more than consumers, a `producer_alloc` that begins after the
first publication has, at every later moment and whatever the consumers do, either failed at
most `entryNum - 2` times and not yet returned, or acquired an entry other than `read_pos`
after at most `entryNum - 2` failures. Each producer step of a pending call is an attempt. -/
theorem producerAlloc_bounded_scan (debug : Bool) (entryNum bufSize : ℤ) (seg shm : Spmc)
    (hinit : spmcInit entryNum bufSize true seg = some shm) (hn : (n : ℤ) + 2 ≤ entryNum)
    (as : List (Action n)) (s : State n) (es : List (Event n))
    (hrun : run (step debug) (start shm) as = some (s, es))
    (hidle : s.producer = .idle) (hpub : 1 ≤ (history es).published)
    (bs : List (Action n)) (t : State n) (fs : List (Event n))
    (hcall : run (step debug) s (.producer :: bs) = some (t, fs)) :
    ((∀ l, .producerAcquired l ∉ fs) ∧ ((bs.count .producer : ℕ) : ℤ) ≤ entryNum - 2) ∨
    ∃ pre j post, fs = pre ++ .producerAcquired j :: post ∧ (∀ l, .producerAcquired l ∉ pre) ∧
      ((pre.countP Event.isCasFailed : ℕ) : ℤ) ≤ entryNum - 2 ∧ j ≠ s.shm.readPos := by
  obtain ⟨hinv, hcap, hs⟩ := scanInv_run hinit hn hrun
  have hentry := (spmcInit_spec hinit).1
  have hconst := capacity_run hrun
  obtain ⟨s', e, f, hstep, hrest, rfl⟩ := (run_cons_iff _ _ _ _ _ _).mp hcall
  have hm := step_move hstep
  simp only [step, hidle, producerAlloc] at hstep
  obtain ⟨rfl, rfl⟩ := Prod.mk.inj (Option.some.inj hstep)
  have hout : ScanOutcome s.shm.capacity s.shm.readPos 0 (bs.count .producer)
      ([.allocStarted] ++ f) :=
    ScanOutcome.cons (by simp) rfl (by simp [Event.isCasFailed])
      (scan_outcome (inv_move hinv hm) hcap (scanInv_move hcap hinv hs hm) hpub rfl hrest)
  rcases hout with ⟨hno, hle⟩ | ⟨pre, j, post, hfs, hno, hle, hj⟩
  · exact Or.inl ⟨hno, by omega⟩
  · exact Or.inr ⟨pre, j, post, hfs, hno, by omega, hj⟩

/-- The consumer holds entry 0 while the producer laps the ring: the scan skips entry 0. -/
theorem producerAlloc_bounded_scan_skips_reader :
    ∃ (shm : Spmc) (s t : State 1) (es fs : List (Event 1)),
      spmcInit 3 4 true zeroSegment = some shm ∧
      run (step false) (start shm) [.producer, .producer, .producer, .producer,
        .consumer 0, .consumer 0, .consumer 0, .consumer 0, .producer, .producer, .producer,
        .producer, .producer, .producer, .producer, .producer] = some (s, es) ∧
      run (step false) s [.producer, .producer, .producer] = some (t, fs) ∧
      fs = [.allocStarted, .casFailed 0, .producerAcquired 1] ∧
      ∃ pre j post, fs = pre ++ .producerAcquired j :: post ∧ j ≠ s.shm.readPos := by
  refine ⟨_, _, _, _, [.allocStarted, .casFailed 0, .producerAcquired 1], rfl, rfl, rfl, rfl, ?_⟩
  have h := producerAlloc_bounded_scan (n := 1) false 3 4 zeroSegment _ rfl (by norm_num)
    [.producer, .producer, .producer, .producer,
      .consumer 0, .consumer 0, .consumer 0, .consumer 0, .producer, .producer, .producer,
      .producer, .producer, .producer, .producer, .producer] _ _ rfl rfl (by decide)
    [.producer, .producer] _ [.allocStarted, .casFailed 0, .producerAcquired 1] rfl
  rcases h with ⟨hno, -⟩ | ⟨pre, j, post, hfs, -, -, hj⟩
  · exact absurd (by simp) (hno 1)
  · exact ⟨pre, j, post, hfs, hj⟩

end CodeC.Spmc10
