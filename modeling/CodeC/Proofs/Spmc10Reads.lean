import CodeC.Proofs.Spmc10History

/-!
# What the consumers of `spmc10.c` read

A consumer obtains one complete message at least as new as the last one published when it
loaded `read_pos`, and the message stays in place until the consumer lets go. Successive
reads of one consumer can step back by one message, because the lock of an entry is
released before `read_pos` announces it.
-/

namespace CodeC.Spmc10
open Library

variable {n : ℕ}

/-- Steps of other parties leave a reader and its entry alone. -/
lemma reading_frame {debug : Bool} {s s' : State n} {a : Action n} {es : List (Event n)}
    (h : History n) (hinv : Inv s) (hm : Move debug s a s' es) {k : Fin n} {i : ℕ}
    (hk : s.consumer k = .reading i) (ha : a ≠ .consumer k) :
    s'.consumer k = .reading i ∧ s'.shm.buf i = s.shm.buf i ∧
      (observe record h es).inEntry i = h.inEntry i := by
  have hfree : s.producer ≠ .writing i := hinv.reader_excludes hk
  have hother : ∀ j : Fin n, Action.consumer j ≠ .consumer k → k ≠ j := by
    intro j hj hkj
    exact hj (by rw [hkj])
  cases hm with
  | alloc hp => exact ⟨hk, rfl, rfl⟩
  | casWon j hp hw => exact ⟨hk, rfl, rfl⟩
  | casLost j hp hw => exact ⟨hk, rfl, rfl⟩
  | write j off byte hp ho =>
    have hij : i ≠ j := by
      rintro rfl
      exact hfree hp
    exact ⟨hk, by simp [hij], rfl⟩
  | allocEnd j hp =>
    have hij : i ≠ j := by
      rintro rfl
      exact hfree hp
    exact ⟨hk, rfl, by simp [record, hij]⟩
  | publish j hp => exact ⟨hk, rfl, rfl⟩
  | call j hj => exact ⟨by simpa [State.setConsumer, hother j ha] using hk, rfl, rfl⟩
  | loadPos j hj => exact ⟨by simpa [State.setConsumer, hother j ha] using hk, rfl, rfl⟩
  | retry j l hj hw => exact ⟨by simpa [State.setConsumer, hother j ha] using hk, rfl, rfl⟩
  | loadCount j l hj hw => exact ⟨by simpa [State.setConsumer, hother j ha] using hk, rfl, rfl⟩
  | acquire j l old hj hw => exact ⟨by simpa [hother j ha] using hk, rfl, rfl⟩
  | lost j l old hj hw => exact ⟨by simpa [State.setConsumer, hother j ha] using hk, rfl, rfl⟩
  | release j l hj => exact ⟨by simpa [hother j ha] using hk, rfl, rfl⟩

lemma record_completed_mono (h : History n) (e : Event n) :
    h.completed ≤ (record h e).completed ∧
      ∀ m, m ≤ h.completed → (record h e).message m = h.message m := by
  cases e with
  | completed i content =>
    refine ⟨Nat.le_succ _, fun m hm => ?_⟩
    have hne : m ≠ h.completed + 1 := by omega
    simp [record, hne]
  | allocStarted => exact ⟨le_refl _, fun _ _ => rfl⟩
  | casFailed i => exact ⟨le_refl _, fun _ _ => rfl⟩
  | producerAcquired i => exact ⟨le_refl _, fun _ _ => rfl⟩
  | published i => exact ⟨le_refl _, fun _ _ => rfl⟩
  | readPosLoaded k i => exact ⟨le_refl _, fun _ _ => rfl⟩
  | consumerAcquired k i => exact ⟨le_refl _, fun _ _ => rfl⟩
  | consumerReleased k i => exact ⟨le_refl _, fun _ _ => rfl⟩

/-- A completed message keeps its content for ever. -/
lemma observe_message_stable (h : History n) (es : List (Event n)) :
    ∀ m, m ≤ h.completed → (observe record h es).message m = h.message m := by
  induction es generalizing h with
  | nil => exact fun _ _ => rfl
  | cons e es ih =>
    intro m hm
    obtain ⟨hle, hmsg⟩ := record_completed_mono h e
    rw [observe_cons, ih (record h e) m (hm.trans hle), hmsg m hm]

lemma history_append (es fs : List (Event n)) :
    history (es ++ fs) = observe record (history es) fs :=
  observe_append record History.empty es fs

/-- Until consumer `k` takes its next step it keeps its entry, and the entry its content. -/
lemma reading_run {debug : Bool} {s t : State n} {bs : List (Action n)} {fs : List (Event n)}
    (hinv : Inv s) {k : Fin n} {i : ℕ} (hk : s.consumer k = .reading i)
    (hrun : run (step debug) s bs = some (t, fs)) (hbs : ∀ b ∈ bs, b ≠ .consumer k) :
    t.consumer k = .reading i ∧ t.shm.buf i = s.shm.buf i := by
  refine run_invariant_under (step debug) (A := fun b => b ≠ .consumer k) (I := Inv)
    (P := fun u => u.consumer k = .reading i ∧ u.shm.buf i = s.shm.buf i)
    (fun u a u' es hu hs => inv_move hu (step_move hs)) ?_ hbs hinv ⟨hk, rfl⟩ hrun
  rintro u a u' es hu ha hs ⟨huk, hub⟩
  obtain ⟨hk', hb', -⟩ := reading_frame History.empty hu (step_move hs) huk ha
  exact ⟨hk', hb'.trans hub⟩

/-- A consumer that loaded `read_pos` after the first publication reads one complete message,
no older than the last one published at that load, and goes on reading that message in
every continuation of the run up to its own `consumer_alloc_end`. -/
theorem consumer_reads_fresh_message (debug : Bool) (entryNum bufSize : ℤ) (seg shm : Spmc)
    (hinit : spmcInit entryNum bufSize true seg = some shm)
    (as : List (Action n)) (s : State n) (es : List (Event n))
    (hrun : run (step debug) (start shm) as = some (s, es))
    (k : Fin n) (i : ℕ) (hk : s.consumer k = .reading i)
    (hload : 1 ≤ (history es).loadedAt k) :
    ∃ m, (history es).loadedAt k ≤ m ∧ 1 ≤ m ∧ m ≤ (history es).completed ∧
      ∀ bs t fs, run (step debug) s bs = some (t, fs) → (∀ b ∈ bs, b ≠ .consumer k) →
        t.consumer k = .reading i ∧ t.shm.buf i = (history es).message m ∧
          (history (es ++ fs)).message m = (history es).message m := by
  obtain ⟨hinv, hh⟩ := historyInv_run hinit hrun
  have hle := hh.loaded_le k i (by simp [hk, ConsumerPc.target])
  have hcontent := hh.content i (hinv.reader_excludes hk) (by omega)
  refine ⟨(history es).inEntry i, hle, by omega, hh.entry_le i, ?_⟩
  intro bs t fs hcont hbs
  obtain ⟨ht, hb⟩ := reading_run hinv hk hcont hbs
  refine ⟨ht, hb.trans hcontent, ?_⟩
  rw [history_append]
  exact observe_message_stable (history es) fs _ (hh.entry_le i)

theorem consumer_reads_fresh_message_one_consumer :
    ∃ (shm : Spmc) (s : State 1) (es : List (Event 1)),
      spmcInit 2 4 true zeroSegment = some shm ∧
      run (step false) (start shm) [.producer, .producer, .write 0 7, .producer, .producer,
        .consumer 0, .consumer 0, .consumer 0, .consumer 0] = some (s, es) ∧
      s.consumer 0 = .reading 0 ∧ (history es).loadedAt 0 = 1 ∧
      ∃ m, 1 ≤ m ∧ s.shm.buf 0 = (history es).message m ∧ (history es).message m 0 = 7 := by
  refine ⟨_, _, _, rfl, rfl, rfl, rfl, ?_⟩
  obtain ⟨m, -, hm, -, hcont⟩ := consumer_reads_fresh_message (n := 1) false 2 4 zeroSegment _ rfl
    [.producer, .producer, .write 0 7, .producer, .producer,
      .consumer 0, .consumer 0, .consumer 0, .consumer 0] _ _ rfl 0 0 rfl (by decide)
  have hread := (hcont [] _ [] rfl (by simp)).2.1
  refine ⟨m, hm, hread, ?_⟩
  rw [← hread]
  rfl

/-- A consumer between its load of `read_pos` and its compare-exchange. -/
def ConsumerPc.Pending (pc : ConsumerPc) : Prop :=
  ∃ i, pc = .gotPos i ∨ ∃ old, pc = .gotCount i old

/-- How an earlier acquisition of a consumer bounds a later one. -/
def Acquisition.Before (a b : Acquisition) : Prop :=
  a.msg ≤ b.loadedAt + 1 ∧ (a.entry = b.entry → a.msg ≤ b.msg) ∧ b.loadedAt ≤ b.msg

structure AcquiredInv (s : State n) (h : History n) : Prop where
  entry_lt : ∀ k, ∀ a ∈ h.acquired k, a.entry < s.shm.capacity
  msg_le : ∀ k, ∀ a ∈ h.acquired k, a.msg ≤ h.inEntry a.entry
  loaded : ∀ k, (s.consumer k).Pending → ∀ a ∈ h.acquired k, a.msg ≤ h.loadedAt k + 1
  ordered : ∀ k, (h.acquired k).Pairwise Acquisition.Before

lemma acquiredInv_start (shm : Spmc) : AcquiredInv (start shm : State n) History.empty := by
  refine ⟨?_, ?_, ?_, ?_⟩ <;> intro k <;> simp [History.empty]

/-- Steps that record no acquisition and leave no consumer with a newly loaded position. -/
lemma acquiredInv_frame {s s' : State n} {h h' : History n} (ha : AcquiredInv s h)
    (hcap : s'.shm.capacity = s.shm.capacity) (hacq : h'.acquired = h.acquired)
    (hentry : ∀ i, h.inEntry i ≤ h'.inEntry i) (hload : h'.loadedAt = h.loadedAt)
    (hpc : ∀ k, (s'.consumer k).Pending → (s.consumer k).Pending) : AcquiredInv s' h' := by
  refine ⟨?_, ?_, ?_, ?_⟩
  · intro k a hk
    rw [hcap]
    exact ha.entry_lt k a (hacq ▸ hk)
  · intro k a hk
    exact (ha.msg_le k a (hacq ▸ hk)).trans (hentry a.entry)
  · intro k hp a hk
    rw [hload]
    exact ha.loaded k (hpc k hp) a (hacq ▸ hk)
  · intro k
    rw [hacq]
    exact ha.ordered k

lemma pending_update {s : State n} {k : Fin n} {pc : ConsumerPc}
    (hpc : pc.Pending → (s.consumer k).Pending) (j : Fin n)
    (hj : (Function.update s.consumer k pc j).Pending) : (s.consumer j).Pending := by
  by_cases hjk : j = k
  · subst hjk
    exact hpc (by simpa using hj)
  · simpa [hjk] using hj

lemma acquiredInv_loadPos {s : State n} {h : History n} (hh : HistoryInv s h)
    (ha : AcquiredInv s h) (k : Fin n) (i : ℕ) :
    AcquiredInv (s.setConsumer k (.gotPos i)) (record h (.readPosLoaded k i)) := by
  refine ⟨ha.entry_lt, ha.msg_le, ?_, ha.ordered⟩
  intro j hp a hj
  by_cases hjk : j = k
  · subst hjk
    have hmsg := (ha.msg_le j a hj).trans (hh.entry_le a.entry)
    simpa [record] using hmsg.trans hh.completed_le
  · simpa [record, hjk] using ha.loaded j (by simpa [State.setConsumer, hjk] using hp) a hj

lemma acquiredInv_acquire {s : State n} {h : History n} (hinv : Inv s) (hh : HistoryInv s h)
    (ha : AcquiredInv s h) (k : Fin n) (i : ℕ) (old : ℤ) (hk : s.consumer k = .gotCount i old) :
    AcquiredInv { s with
        shm := { s.shm with
          nconsumers := Function.update s.shm.nconsumers i (wrap32 (old + 1)) }
        consumer := Function.update s.consumer k (.reading i) }
      (record h (.consumerAcquired k i)) := by
  have hi : i < s.shm.capacity := hinv.consumer_lt k i (by simp [hk, ConsumerPc.target])
  have hload := ha.loaded k ⟨i, Or.inr ⟨old, hk⟩⟩
  have hmem : ∀ j a, a ∈ (record h (.consumerAcquired k i)).acquired j →
      a ∈ h.acquired j ∨ a = ⟨i, h.inEntry i, h.loadedAt k⟩ := by
    intro j a hj
    by_cases hjk : j = k
    · subst hjk
      simpa [record] using hj
    · exact Or.inl (by simpa [record, hjk] using hj)
  refine ⟨?_, ?_, ?_, ?_⟩
  · intro j a hj
    rcases hmem j a hj with hold | rfl
    · exact ha.entry_lt j a hold
    · exact hi
  · intro j a hj
    rcases hmem j a hj with hold | rfl
    · exact ha.msg_le j a hold
    · exact le_refl _
  · intro j hp a hj
    by_cases hjk : j = k
    · subst hjk
      obtain ⟨l, hl | ⟨o, hl⟩⟩ := hp <;> simp at hl
    · refine ha.loaded j (by simpa [hjk] using hp) a ?_
      simpa [record, hjk] using hj
  · intro j
    by_cases hjk : j = k
    · subst hjk
      have hnew : ∀ a ∈ h.acquired j, a.Before ⟨i, h.inEntry i, h.loadedAt j⟩ := by
        intro a hj
        refine ⟨hload a hj, ?_, hh.loaded_le j i (by simp [hk, ConsumerPc.target])⟩
        rintro rfl
        exact ha.msg_le j a hj
      simpa [record, List.pairwise_append] using ⟨ha.ordered j, hnew⟩
    · simpa [record, hjk] using ha.ordered j

theorem acquiredInv_move {debug : Bool} {s s' : State n} {a : Action n} {es : List (Event n)}
    {h : History n} (hinv : Inv s) (hh : HistoryInv s h) (ha : AcquiredInv s h)
    (hm : Move debug s a s' es) : AcquiredInv s' (observe record h es) := by
  cases hm with
  | alloc hp => exact acquiredInv_frame ha rfl rfl (fun _ => le_refl _) rfl (fun _ hj => hj)
  | casWon i hp hw =>
    exact acquiredInv_frame ha rfl rfl (fun _ => le_refl _) rfl (fun _ hj => hj)
  | casLost i hp hw =>
    exact acquiredInv_frame ha rfl rfl (fun _ => le_refl _) rfl (fun _ hj => hj)
  | write i off byte hp ho =>
    exact acquiredInv_frame ha rfl rfl (fun _ => le_refl _) rfl (fun _ hj => hj)
  | allocEnd i hp =>
    exact acquiredInv_frame ha rfl rfl (fun j => inEntry_le_completed hh i j _) rfl
      (fun _ hj => hj)
  | publish i hp => exact acquiredInv_frame ha rfl rfl (fun _ => le_refl _) rfl (fun _ hj => hj)
  | call k hk =>
    exact acquiredInv_frame ha rfl rfl (fun _ => le_refl _) rfl
      (pending_update (by simp [ConsumerPc.Pending]))
  | loadPos k hk => exact acquiredInv_loadPos hh ha k s.shm.readPos
  | retry k i hk hw =>
    exact acquiredInv_frame ha rfl rfl (fun _ => le_refl _) rfl
      (pending_update (by simp [ConsumerPc.Pending]))
  | loadCount k i hk hw =>
    exact acquiredInv_frame ha rfl rfl (fun _ => le_refl _) rfl
      (pending_update (fun _ => ⟨i, Or.inl hk⟩))
  | acquire k i old hk hw => exact acquiredInv_acquire hinv hh ha k i old hk
  | lost k i old hk hw =>
    exact acquiredInv_frame ha rfl rfl (fun _ => le_refl _) rfl
      (pending_update (by simp [ConsumerPc.Pending]))
  | release k i hk =>
    refine acquiredInv_frame ha rfl rfl (fun _ => le_refl _) rfl (pending_update ?_)
    by_cases hneg : wrap32 (s.shm.nconsumers i - 1) < 0 <;> simp [ConsumerPc.Pending, hneg]

theorem acquiredInv_run {debug : Bool} {entryNum bufSize : ℤ} {seg shm : Spmc}
    (hinit : spmcInit entryNum bufSize true seg = some shm) {as : List (Action n)} {s : State n}
    {es : List (Event n)} (hrun : run (step debug) (start shm) as = some (s, es)) :
    AcquiredInv s (history es) :=
  (run_invariant (step debug) record (fun s h => (Inv s ∧ HistoryInv s h) ∧ AcquiredInv s h)
    (fun _ _ _ _ _ h hs =>
      ⟨⟨inv_move h.1.1 (step_move hs), historyInv_move h.1.1 h.1.2 (step_move hs)⟩,
        acquiredInv_move h.1.1 h.1.2 h.2 (step_move hs)⟩)
    ⟨⟨inv_start hinit, historyInv_start shm⟩, acquiredInv_start shm⟩ hrun).2

/-- Of two acquisitions by one consumer the later one obtains a message that is at least as
new, or the immediately preceding message from another entry, and then the newer one was not
yet published when the later call loaded `read_pos`. A ring with one entry is monotone. -/
theorem acquired_messages_step_back_at_most_one (debug : Bool) (entryNum bufSize : ℤ)
    (seg shm : Spmc) (hinit : spmcInit entryNum bufSize true seg = some shm)
    (as : List (Action n)) (s : State n) (es : List (Event n))
    (hrun : run (step debug) (start shm) as = some (s, es)) (k : Fin n) :
    ((history es).acquired k).Pairwise (fun a b => a.msg ≤ b.msg ∨
      (a.entry ≠ b.entry ∧ a.msg = b.msg + 1 ∧ b.loadedAt < a.msg)) ∧
    (entryNum = 1 → ((history es).acquired k).Pairwise (fun a b => a.msg ≤ b.msg)) := by
  have ha := acquiredInv_run hinit hrun
  refine ⟨(ha.ordered k).imp ?_, ?_⟩
  · intro a b hab
    obtain ⟨hload, hentry, hfresh⟩ := hab
    by_cases hle : a.msg ≤ b.msg
    · exact Or.inl hle
    · exact Or.inr ⟨fun he => hle (hentry he), by omega, by omega⟩
  · intro hone
    have hcap : s.shm.capacity = 1 := by
      have hshm := (spmcInit_spec hinit).1
      rw [capacity_run hrun]
      omega
    refine (ha.ordered k).imp_of_mem ?_
    intro a b hamem hbmem hab
    have hae := ha.entry_lt k a hamem
    have hbe := ha.entry_lt k b hbmem
    exact hab.2.1 (by omega)

/-- The consumer keeps a position loaded for message 1 until message 3 is in that entry and
unpublished, reads message 3, and then reads message 2 at the current `read_pos`. -/
def staleReadRun {n : ℕ} (c : Fin n) : List (Action n) :=
  [.producer, .producer, .producer, .producer, .consumer c, .consumer c,
    .producer, .producer, .producer, .producer, .producer, .producer, .producer,
    .consumer c, .consumer c, .consumer c, .consumer c, .consumer c, .consumer c, .consumer c]

theorem acquired_messages_decrease :
    ∃ (shm : Spmc) (s : State 1) (es : List (Event 1)),
      spmcInit 2 4 true zeroSegment = some shm ∧
      run (step false) (start shm) (staleReadRun 0) = some (s, es) ∧
      ((history es).acquired 0).map Acquisition.msg = [3, 2] ∧
      ¬((history es).acquired 0).Pairwise (fun a b => a.msg ≤ b.msg) :=
  ⟨_, _, _, rfl, rfl, by decide, by decide⟩

theorem acquired_messages_step_back_once :
    ∃ (shm : Spmc) (s : State 1) (es : List (Event 1)),
      spmcInit 2 4 true zeroSegment = some shm ∧
      run (step false) (start shm) (staleReadRun 0) = some (s, es) ∧
      (history es).acquired 0 = [⟨0, 3, 1⟩, ⟨1, 2, 2⟩] ∧
      ((history es).acquired 0).Pairwise (fun a b => a.msg ≤ b.msg ∨
        (a.entry ≠ b.entry ∧ a.msg = b.msg + 1 ∧ b.loadedAt < a.msg)) :=
  ⟨_, _, _, rfl, rfl, by decide,
    (acquired_messages_step_back_at_most_one (n := 1) false 2 4 zeroSegment _ rfl
      (staleReadRun 0) _ _ rfl 0).1⟩

end CodeC.Spmc10
