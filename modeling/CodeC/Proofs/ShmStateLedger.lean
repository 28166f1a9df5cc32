import CodeC.Library.LockLedger
import CodeC.Proofs.ShmStateExclusion

/-!
# The lock words of `shm.hpp` over whole runs

A reader may share a block with the writer, and `ReleaseWriteLock` then stores `kRWLockFree`
over the word that counts this reader. What every word holds follows from the readers that the
last release of its block overwrote. The same account says when `LockForWrite` takes the block
that readers are directed to: `write_pos_` never moves, so every search starts at block 0.
-/

namespace CodeC.ShmState
open Library

variable {n : ℕ}

/-- What an observer of the emitted events keeps: the block each reader holds, and for each
block the number of readers that held it when it was last released by the writer. -/
structure History (n : ℕ) where
  holding : Fin n → Option ℕ
  overwritten : ℕ → ℕ

def History.empty : History n := ⟨fun _ => none, fun _ => 0⟩

def record (h : History n) : Event n → History n
  | .writeLocked _ => h
  | .writeReleased i =>
    { h with overwritten := Function.update h.overwritten i (countWith (· = some i) h.holding) }
  | .readPosStored _ => h
  | .readRefused _ => h
  | .readLocked r i => { h with holding := Function.update h.holding r (some i) }
  | .readReleased r _ => { h with holding := Function.update h.holding r none }

def history (es : List (Event n)) : History n := observe record History.empty es

/-- The number of readers that hold block `i`. -/
def holders (s : System n) (i : ℕ) : ℕ := countWith (· = some i) (ReaderPc.held ∘ s.reader)

structure LedgerInv (s : System n) (h : History n) : Prop where
  holding : h.holding = ReaderPc.held ∘ s.reader
  words : LockLedger s.state.locks s.writer.held (ReaderPc.held ∘ s.reader) h.overwritten
  overwritten_le : ∀ i, h.overwritten i ≤ n
  writePos : s.state.writePos = 0

lemma ledgerInv_start (blockNum : ℕ) : LedgerInv (start blockNum : System n) History.empty :=
  ⟨rfl, LockLedger.init (fun _ => rfl), fun _ => Nat.zero_le n, rfl⟩

lemma LedgerInv.words_of {s : System n} {h : History n} (hl : LedgerInv s h) {o : Option ℕ}
    (ho : s.writer.held = o) :
    LockLedger s.state.locks o (ReaderPc.held ∘ s.reader) h.overwritten :=
  ho ▸ hl.words

/-- A writer step that touches neither a lock word nor a block. -/
lemma ledgerInv_writer {s : System n} {h : History n} (hl : LedgerInv s h) (pc : WriterPc)
    (readPos : ℤ) (hheld : pc.held = s.writer.held) :
    LedgerInv { s with state := { s.state with readPos := readPos }, writer := pc } h := by
  refine ⟨hl.holding, ?_, hl.overwritten_le, hl.writePos⟩
  simp only [hheld]
  exact hl.words

/-- A reader step between two control points at neither of which it holds a block. -/
lemma ledgerInv_setReader {s : System n} {h : History n} (hl : LedgerInv s h) (r : Fin n)
    (pc : ReaderPc) (hold : (s.reader r).held = none) (hnew : pc.held = none) :
    LedgerInv (s.setReader r pc) h := by
  have hsame : ReaderPc.held ∘ Function.update s.reader r pc = ReaderPc.held ∘ s.reader := by
    rw [Function.comp_update, hnew, ← hold]
    exact Function.update_eq_self r _
  refine ⟨?_, ?_, hl.overwritten_le, hl.writePos⟩
  · simp only [System.setReader, hsame]
    exact hl.holding
  · simp only [System.setReader, hsame]
    exact hl.words

theorem ledgerInv_move {s s' : System n} {h : History n} {a : Action n} {es : List (Event n)}
    (hl : LedgerInv s h) (hm : Move s a s' es) : LedgerInv s' (observe record h es) := by
  cases hm with
  | lockForWrite hp => exact ledgerInv_writer hl _ s.state.readPos (by simp [hp, WriterPc.held])
  | casWon i hp hw =>
    refine ⟨hl.holding, ?_, hl.overwritten_le, hl.writePos⟩
    exact (hl.words_of (by simp [hp, WriterPc.held])).lock_write hw
  | casLost i _ hp ha => exact ledgerInv_writer hl _ s.state.readPos (by simp [hp, WriterPc.held])
  | releaseWrite i hp =>
    refine ⟨hl.holding, ?_, ?_, hl.writePos⟩
    · simp only [observe_cons, observe_nil, record, hl.holding]
      exact (hl.words_of (by simp [hp, WriterPc.held])).unlock_write
    · intro j
      by_cases hji : j = i
      · subst hji
        simpa [record] using countWith_le_card (· = some j) h.holding
      · simpa [record, hji] using hl.overwritten_le j
  | storePos i hp => exact ledgerInv_writer hl _ i (by simp [hp, WriterPc.held])
  | lockForRead r hr => exact ledgerInv_setReader hl r _ (by simp [hr, ReaderPc.held]) rfl
  | refused r hr hpos => exact ledgerInv_setReader hl r _ (by simp [hr, ReaderPc.held]) rfl
  | loadPos r hr hpos => exact ledgerInv_setReader hl r _ (by simp [hr, ReaderPc.held]) rfl
  | loadLock r i hr => exact ledgerInv_setReader hl r _ (by simp [hr, ReaderPc.held]) rfl
  | acquire r i lockNum hr hw =>
    subst hw
    refine ⟨?_, ?_, hl.overwritten_le, hl.writePos⟩
    · simp only [observe_cons, observe_nil, record, hl.holding]
      rw [Function.comp_update]
      rfl
    · simp only [Function.comp_update]
      exact hl.words.lock_read (by simp [hr, ReaderPc.held])
  | lost r i lockNum _ hr ha => exact ledgerInv_setReader hl r _ (by simp [hr, ReaderPc.held]) rfl
  | releaseRead r i hr =>
    refine ⟨?_, ?_, hl.overwritten_le, hl.writePos⟩
    · simp only [observe_cons, observe_nil, record, hl.holding]
      rw [Function.comp_update]
      rfl
    · simp only [Function.comp_update]
      exact hl.words.unlock_read (by simp [hr])

theorem ledgerInv_run {blockNum : ℕ} {as : List (Action n)} {s : System n} {es : List (Event n)}
    (hrun : run step (start blockNum) as = some (s, es)) : LedgerInv s (history es) :=
  run_invariant step record LedgerInv (fun _ _ _ _ _ hl hs => ledgerInv_move hl (step_move hs))
    (ledgerInv_start blockNum) hrun

/-- Nobody holds a block or is inside one of the four operations. -/
def Quiescent (s : System n) : Prop := s.writer = .idle ∧ ∀ r, s.reader r = .idle

instance (s : System n) : Decidable (Quiescent s) :=
  inferInstanceAs (Decidable (s.writer = .idle ∧ ∀ r, s.reader r = .idle))

lemma Quiescent.holders_eq {s : System n} (h : Quiescent s) (i : ℕ) : holders s i = 0 := by
  apply (countWith_eq_zero_iff _ _).mpr
  intro r
  simp [h.2 r, ReaderPc.held]

/-- A free block at `write_pos_` is locked by the first compare-exchange of `LockForWrite`. -/
lemma lockForWrite_first_attempt {s : System n} (hp : s.writer = .idle)
    (hw : s.state.locks s.state.writePos = kRWLockFree) :
    ∃ t, run step s [.writer, .writer] = some (t, [.writeLocked s.state.writePos]) ∧
      t.writer = .writing s.state.writePos := by
  refine ⟨{ s with
    state := { s.state with
      locks := Function.update s.state.locks s.state.writePos kWriteExclusive }
    writer := .writing s.state.writePos }, ?_, rfl⟩
  rw [run_cons_iff]
  refine ⟨{ s with writer := .locking s.state.writePos }, [], [.writeLocked s.state.writePos],
    ?_, ?_, rfl⟩
  · simp only [step, hp]
  · rw [run_cons_iff]
    refine ⟨_, [.writeLocked s.state.writePos], [], ?_, rfl, rfl⟩
    simp only [step, lockForWriteCas]
    rw [if_pos hw]

/-- In a state in which nobody uses the table, all the lock words are free exactly when, for
every block, the number of readers that held it at its last release by the writer was 0 modulo
`2 ^ 32`; the next `LockForWrite` then succeeds at its first attempt. -/
theorem quiescent_locks_free_iff (blockNum : ℕ) (as : List (Action n)) (s : System n)
    (es : List (Event n)) (hrun : run step (start blockNum) as = some (s, es))
    (hq : Quiescent s) :
    ((∀ i < blockNum, s.state.locks i = kRWLockFree) ↔
      ∀ i < blockNum, (history es).overwritten i % 2 ^ 32 = 0) ∧
    (0 < blockNum → (∀ i < blockNum, s.state.locks i = kRWLockFree) →
      ∃ t, run step s [.writer, .writer] = some (t, [.writeLocked s.state.writePos]) ∧
        t.writer = .writing s.state.writePos) := by
  have hl := ledgerInv_run hrun
  have hword : ∀ i, s.state.locks i = kRWLockFree ↔ (history es).overwritten i % 2 ^ 32 = 0 := by
    intro i
    have hz := hl.words.word_eq_zero_iff (i := i) (by simp [hq.1, WriterPc.held])
    have hnone : countWith (· = some i) (ReaderPc.held ∘ s.reader) = 0 := hq.holders_eq i
    rw [hnone] at hz
    unfold kRWLockFree
    rw [hz]
    omega
  constructor
  · exact forall₂_congr (fun i _ => hword i)
  · intro hpos hfree
    apply lockForWrite_first_attempt hq.1
    rw [hl.writePos]
    exact hfree 0 hpos

theorem quiescent_locks_free_iff_one_reader :
    ∃ (s : System 1) (es : List (Event 1)),
      run step (start 8) [.writer, .writer, .writer, .writer, .reader 0, .reader 0, .reader 0,
        .reader 0, .reader 0] = some (s, es) ∧
      Quiescent s ∧ ∀ i < 8, s.state.locks i = kRWLockFree := by
  refine ⟨_, _, rfl, by decide, ?_⟩
  exact (quiescent_locks_free_iff (n := 1) 8 [.writer, .writer, .writer, .writer, .reader 0,
    .reader 0, .reader 0, .reader 0, .reader 0] _ _ rfl (by decide)).1.mpr (by decide)

/-- The reader that joined the writer in block 0 releases after the writer. -/
def leakRun {n : ℕ} (r : Fin n) : List (Action n) :=
  sharedBlockRun r ++ [.writer, .writer, .reader r]

theorem joined_reader_leaks_lock :
    ∃ (s : System 1) (es : List (Event 1)),
      run step (start 8) (leakRun 0) = some (s, es) ∧ Quiescent s ∧
      s.state.locks 0 = kWriteExclusive ∧ ¬∀ i < 8, s.state.locks i = kRWLockFree :=
  ⟨_, _, rfl, by decide, rfl, fun h => absurd (h 0 (by decide)) (by decide)⟩

/-- When the step is the successful end of a `LockForWrite`, it does not return `read_pos_`.
Before the first `ReleaseWriteLock` `read_pos_` is -1 and this holds anyway. -/
def AvoidsReadPos (s : System n) (_ : List (Event n)) (a : Action n) : Prop :=
  ∀ s' i, step s a = some (s', [.writeLocked i]) → (i : ℤ) ≠ s'.state.readPos

/-- When the step is the compare-exchange of `LockForWrite` on the block `read_pos_`, the block
is held by a number of readers other than the number its last release overwrote. -/
def ReadPosShared (s : System n) (es : List (Event n)) (a : Action n) : Prop :=
  a = .writer → ∀ i, s.writer = .locking i → (i : ℤ) = s.state.readPos →
    holders s i ≠ (history es).overwritten i

lemma holders_le (s : System n) (i : ℕ) : holders s i ≤ n := by
  simpa [holders] using countWith_le_card (· = some i) (ReaderPc.held ∘ s.reader)

lemma LedgerInv.free_iff (hn : n < 2 ^ 32) {s : System n} {h : History n} (hl : LedgerInv s h)
    {i : ℕ} (hp : s.writer = .locking i) :
    s.state.locks i = kRWLockFree ↔ holders s i = h.overwritten i := by
  have hz := hl.words.word_eq_zero_iff (i := i) (by simp [hp, WriterPc.held])
  have hle := holders_le s i
  have hover := hl.overwritten_le i
  unfold kRWLockFree
  rw [hz]
  unfold holders at hle ⊢
  omega

lemma avoidsReadPos_iff (hn : n < 2 ^ 32) {s : System n} {es : List (Event n)}
    (hl : LedgerInv s (history es)) (a : Action n) :
    AvoidsReadPos s es a ↔ ReadPosShared s es a := by
  constructor
  · rintro havoid rfl i hp hread heq
    have hw := (hl.free_iff hn hp).mpr heq
    have hstep : step s .writer = some ({ s with
        state := { s.state with locks := Function.update s.state.locks i kWriteExclusive }
        writer := .writing i }, [.writeLocked i]) := by
      simp only [step, hp, lockForWriteCas]
      rw [if_pos hw]
    exact havoid _ i hstep hread
  · intro hshared s' i hs
    cases step_move hs with
    | casWon i hp hw =>
      intro hread
      exact hshared rfl i hp hread ((hl.free_iff hn hp).mp hw)

/-- A run in which no reader joins the writer overwrites no reader. -/
lemma overwritten_eq_zero {blockNum : ℕ} {as : List (Action n)} {s : System n}
    {es : List (Event n)} (hfree : StepsMeet step ReadsFreeLock (start blockNum) as)
    (hrun : run step (start blockNum) as = some (s, es)) (i : ℕ) :
    (history es).overwritten i = 0 := by
  have hinv := run_invariant_meeting step record ReadsFreeLock
    (fun s h => Inv s ∧ LedgerInv s h ∧ ∀ i, h.overwritten i = 0) ?_ hfree
    ⟨inv_start blockNum, ledgerInv_start blockNum, fun _ => rfl⟩ hrun
  · exact hinv.2.2 i
  intro s h a s' es hC hI hs
  obtain ⟨hi, hl, hzero⟩ := hI
  have hm := step_move hs
  refine ⟨inv_move hi hC hm, ledgerInv_move hl hm, ?_⟩
  cases hm with
  | releaseWrite i hp =>
    intro j
    by_cases hji : j = i
    · subst hji
      simp only [observe_cons, observe_nil, record, hl.holding, Function.update_self]
      apply (countWith_eq_zero_iff _ _).mpr
      intro r hr
      exact hi.exclusion j hp r (by simpa using hr)
    · simpa [record, hji] using hzero j
  | lockForWrite hp => exact hzero
  | casWon i hp hw => exact hzero
  | casLost i _ hp ha => exact hzero
  | storePos i hp => exact hzero
  | lockForRead r hr => exact hzero
  | refused r hr hpos => exact hzero
  | loadPos r hr hpos => exact hzero
  | loadLock r i hr => exact hzero
  | acquire r i lockNum hr hw => exact hzero
  | lost r i lockNum _ hr ha => exact hzero
  | releaseRead r i hr => exact hzero

/-- When the step is the compare-exchange of `LockForWrite` on the block `read_pos_`, some
reader holds the block. -/
def ReadPosHeld (s : System n) (_ : List (Event n)) (a : Action n) : Prop :=
  a = .writer → ∀ i, s.writer = .locking i → (i : ℤ) = s.state.readPos →
    ∃ r, s.reader r = .reading i

lemma readPosShared_iff_held {s : System n} {es : List (Event n)}
    (hzero : ∀ i, (history es).overwritten i = 0) (a : Action n) :
    ReadPosShared s es a ↔ ReadPosHeld s es a := by
  have hpos : ∀ i, holders s i ≠ (history es).overwritten i ↔ ∃ r, s.reader r = .reading i := by
    intro i
    rw [hzero i, ← Nat.pos_iff_ne_zero, holders, countWith_pos_iff]
    simp
  unfold ReadPosShared ReadPosHeld
  simp only [hpos]

/-- Along every run, no `LockForWrite` returns `read_pos_` if and only if, whenever it tries the
block `read_pos_`, the readers holding the block differ in number from those its last release
overwrote. In a run in which no reader joins the writer this says that some reader holds it. -/
theorem lockForWrite_avoids_readPos_iff (hn : n < 2 ^ 32) (blockNum : ℕ) (as : List (Action n)) :
    (EachStep step AvoidsReadPos (start blockNum) as ↔
      EachStep step ReadPosShared (start blockNum) as) ∧
    (StepsMeet step ReadsFreeLock (start blockNum) as →
      (EachStep step AvoidsReadPos (start blockNum) as ↔
        EachStep step ReadPosHeld (start blockNum) as)) := by
  have hshared : EachStep step AvoidsReadPos (start blockNum : System n) as ↔
      EachStep step ReadPosShared (start blockNum) as := by
    apply eachStep_iff
    intro bs a cs t es _ hrun
    exact avoidsReadPos_iff hn (ledgerInv_run hrun) a
  refine ⟨hshared, fun hfree => hshared.trans ?_⟩
  apply eachStep_iff
  intro bs a cs t es has hrun
  rw [has] at hfree
  exact readPosShared_iff_held (overwritten_eq_zero (stepsMeet_left hfree) hrun) a

lemma readPosShared_of_reader (s : System n) (es : List (Event n)) (r : Fin n) :
    ReadPosShared s es (.reader r) := nofun

/-- A reader keeps the published block 0, and the writer takes block 1. -/
theorem lockForWrite_avoids_readPos_one_reader :
    EachStep step AvoidsReadPos (start 3 : System 1) [.writer, .writer, .writer, .writer,
      .reader 0, .reader 0, .reader 0, .reader 0, .writer, .writer, .writer] := by
  apply (lockForWrite_avoids_readPos_iff (n := 1) (by norm_num) 3 _).1.mpr
  refine eachStep_cons rfl ?_ (eachStep_cons rfl ?_ (eachStep_cons rfl ?_ (eachStep_cons rfl ?_
    (eachStep_cons rfl ?_ (eachStep_cons rfl ?_ (eachStep_cons rfl ?_ (eachStep_cons rfl ?_
      (eachStep_cons rfl ?_ (eachStep_cons rfl ?_ (eachStep_cons rfl ?_
        (eachStep_nil _ _ _)))))))))))
  · rintro - i ⟨⟩
  · rintro - i ⟨⟩ hread
    exact absurd hread (by decide)
  · rintro - i ⟨⟩
  · rintro - i ⟨⟩
  · exact readPosShared_of_reader _ _ 0
  · exact readPosShared_of_reader _ _ 0
  · exact readPosShared_of_reader _ _ 0
  · exact readPosShared_of_reader _ _ 0
  · rintro - i ⟨⟩
  · rintro - i ⟨⟩ -
    decide
  · rintro - i ⟨⟩ hread
    exact absurd hread (by decide)

/-- The second `LockForWrite` of a writer without readers returns `read_pos_`. -/
theorem lockForWrite_returns_readPos :
    ¬EachStep step AvoidsReadPos (start 2 : System 0)
      [.writer, .writer, .writer, .writer, .writer, .writer] := by
  intro h
  exact h [.writer, .writer, .writer, .writer, .writer] .writer [] _ _ rfl rfl _ 0 rfl rfl

end CodeC.ShmState
