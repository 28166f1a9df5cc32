import CodeC.ShmState

/-!
# When the lock table of `shm.hpp` excludes readers and the writer

`LockForRead` compares the index, not the loaded lock word, with `kRWLockFree`, so a reader
can turn the word of a block under writing from -1 into 0 and share the block with the
writer. Exclusion holds along exactly those runs in which no reader does so.
-/

namespace CodeC.ShmState
open Library

variable {n : ℕ}

def WriterPc.held : WriterPc → Option ℕ
  | .writing i => some i
  | _ => none

def ReaderPc.held : ReaderPc → Option ℕ
  | .reading i => some i
  | _ => none

@[simp] lemma writer_held_eq_some (pc : WriterPc) (i : ℕ) :
    pc.held = some i ↔ pc = .writing i := by
  cases pc <;> simp [WriterPc.held]

@[simp] lemma reader_held_eq_some (pc : ReaderPc) (i : ℕ) :
    pc.held = some i ↔ pc = .reading i := by
  cases pc <;> simp [ReaderPc.held]

/-- Writer and readers never hold the same block. -/
def Exclusion (s : System n) : Prop :=
  ∀ i, s.writer = .writing i → ∀ r, s.reader r ≠ .reading i

/-- The step is not a compare-exchange of `LockForRead` that succeeds with `lock_num` below
`kRWLockFree`. -/
def ReadsFreeLock (s : System n) : Action n → Prop
  | .reader r => ∀ i lockNum, s.reader r = .gotLock i lockNum → s.state.locks i = lockNum →
      kRWLockFree ≤ lockNum
  | _ => True

/-- Every step of the system, with its guard and its effect. -/
inductive Move (s : System n) : Action n → System n → List (Event n) → Prop
  | lockForWrite (hp : s.writer = .idle) :
    Move s .writer { s with writer := .locking s.state.writePos } []
  | casWon (i : ℕ) (hp : s.writer = .locking i) (hw : s.state.locks i = kRWLockFree) :
    Move s .writer
      { s with
        state := { s.state with locks := Function.update s.state.locks i kWriteExclusive }
        writer := .writing i } [.writeLocked i]
  | casLost (i : ℕ) (a : Action n) (hp : s.writer = .locking i)
      (ha : (a = .writer ∧ s.state.locks i ≠ kRWLockFree) ∨ a = .writerSpurious) :
    Move s a { s with writer := .locking ((i + 1) % s.state.blockNum) } []
  | releaseWrite (i : ℕ) (hp : s.writer = .writing i) :
    Move s .writer
      { s with
        state := { s.state with locks := Function.update s.state.locks i kRWLockFree }
        writer := .releasing i } [.writeReleased i]
  | storePos (i : ℕ) (hp : s.writer = .releasing i) :
    Move s .writer { s with state := { s.state with readPos := i }, writer := .idle }
      [.readPosStored i]
  | lockForRead (r : Fin n) (hr : s.reader r = .idle) :
    Move s (.reader r) (s.setReader r .locking) []
  | refused (r : Fin n) (hr : s.reader r = .locking) (hpos : s.state.readPos < 0) :
    Move s (.reader r) (s.setReader r .idle) [.readRefused r]
  | loadPos (r : Fin n) (hr : s.reader r = .locking) (hpos : ¬s.state.readPos < 0) :
    Move s (.reader r) (s.setReader r (.gotPos s.state.readPos.toNat)) []
  | loadLock (r : Fin n) (i : ℕ) (hr : s.reader r = .gotPos i) :
    Move s (.reader r) (s.setReader r (.gotLock i (s.state.locks i))) []
  | acquire (r : Fin n) (i : ℕ) (lockNum : ℤ) (hr : s.reader r = .gotLock i lockNum)
      (hw : s.state.locks i = lockNum) :
    Move s (.reader r)
      { s with
        state := { s.state with
          locks := Function.update s.state.locks i (wrap32 (lockNum + 1)) }
        reader := Function.update s.reader r (.reading i) } [.readLocked r i]
  | lost (r : Fin n) (i : ℕ) (lockNum : ℤ) (a : Action n) (hr : s.reader r = .gotLock i lockNum)
      (ha : (a = .reader r ∧ s.state.locks i ≠ lockNum) ∨ a = .readerSpurious r) :
    Move s a (s.setReader r .locking) []
  | releaseRead (r : Fin n) (i : ℕ) (hr : s.reader r = .reading i) :
    Move s (.reader r)
      { s with
        state := { s.state with
          locks := Function.update s.state.locks i (wrap32 (s.state.locks i - 1)) }
        reader := Function.update s.reader r .idle } [.readReleased r i]

lemma lockForReadLoad_eq (s : System n) (r : Fin n) (i : ℕ) :
    lockForReadLoad s r i = (s.setReader r (.gotLock i (s.state.locks i)), []) := by
  have hguard : ¬(i : ℤ) < kRWLockFree := by
    unfold kRWLockFree
    omega
  rw [lockForReadLoad, if_neg hguard]

theorem step_move {s s' : System n} {a : Action n} {es : List (Event n)}
    (h : step s a = some (s', es)) : Move s a s' es := by
  cases a with
  | writer =>
    cases hp : s.writer with
    | idle =>
      simp only [step, hp] at h
      obtain ⟨rfl, rfl⟩ := Prod.mk.inj (Option.some.inj h)
      exact .lockForWrite hp
    | locking i =>
      simp only [step, hp, lockForWriteCas] at h
      by_cases hw : s.state.locks i = kRWLockFree
      · rw [if_pos hw] at h
        obtain ⟨rfl, rfl⟩ := Prod.mk.inj (Option.some.inj h)
        exact .casWon i hp hw
      · rw [if_neg hw] at h
        obtain ⟨rfl, rfl⟩ := Prod.mk.inj (Option.some.inj h)
        exact .casLost i _ hp (Or.inl ⟨rfl, hw⟩)
    | writing i =>
      simp only [step, hp, releaseWriteLock] at h
      obtain ⟨rfl, rfl⟩ := Prod.mk.inj (Option.some.inj h)
      exact .releaseWrite i hp
    | releasing i =>
      simp only [step, hp, releaseWriteLockPos] at h
      obtain ⟨rfl, rfl⟩ := Prod.mk.inj (Option.some.inj h)
      exact .storePos i hp
  | writerSpurious =>
    cases hp : s.writer with
    | locking i =>
      simp only [step, hp] at h
      obtain ⟨rfl, rfl⟩ := Prod.mk.inj (Option.some.inj h)
      exact .casLost i _ hp (Or.inr rfl)
    | idle => simp [step, hp] at h
    | writing i => simp [step, hp] at h
    | releasing i => simp [step, hp] at h
  | reader r =>
    cases hr : s.reader r with
    | idle =>
      simp only [step, hr] at h
      obtain ⟨rfl, rfl⟩ := Prod.mk.inj (Option.some.inj h)
      exact .lockForRead r hr
    | locking =>
      simp only [step, hr, lockForReadPos] at h
      by_cases hpos : s.state.readPos < 0
      · rw [if_pos hpos] at h
        obtain ⟨rfl, rfl⟩ := Prod.mk.inj (Option.some.inj h)
        exact .refused r hr hpos
      · rw [if_neg hpos] at h
        obtain ⟨rfl, rfl⟩ := Prod.mk.inj (Option.some.inj h)
        exact .loadPos r hr hpos
    | gotPos i =>
      simp only [step, hr, lockForReadLoad_eq] at h
      obtain ⟨rfl, rfl⟩ := Prod.mk.inj (Option.some.inj h)
      exact .loadLock r i hr
    | gotLock i lockNum =>
      simp only [step, hr, lockForReadCas] at h
      by_cases hw : s.state.locks i = lockNum
      · rw [if_pos hw] at h
        obtain ⟨rfl, rfl⟩ := Prod.mk.inj (Option.some.inj h)
        exact .acquire r i lockNum hr hw
      · rw [if_neg hw] at h
        obtain ⟨rfl, rfl⟩ := Prod.mk.inj (Option.some.inj h)
        exact .lost r i lockNum _ hr (Or.inl ⟨rfl, hw⟩)
    | reading i =>
      simp only [step, hr, releaseReadLock] at h
      obtain ⟨rfl, rfl⟩ := Prod.mk.inj (Option.some.inj h)
      exact .releaseRead r i hr
  | readerSpurious r =>
    cases hr : s.reader r with
    | gotLock i lockNum =>
      simp only [step, hr] at h
      obtain ⟨rfl, rfl⟩ := Prod.mk.inj (Option.some.inj h)
      exact .lost r i lockNum _ hr (Or.inr rfl)
    | idle => simp [step, hr] at h
    | locking => simp [step, hr] at h
    | gotPos i => simp [step, hr] at h
    | reading i => simp [step, hr] at h

/-- Every lock word represents the parties that hold its block. -/
def Inv (s : System n) : Prop :=
  LockTable (fun _ => True) s.state.locks s.writer.held (ReaderPc.held ∘ s.reader)

lemma inv_start (blockNum : ℕ) : Inv (start blockNum : System n) :=
  LockTable.init (fun _ _ => rfl)

lemma Inv.of_writer {s : System n} (h : Inv s) {o : Option ℕ} (ho : s.writer.held = o) :
    LockTable (fun _ => True) s.state.locks o (ReaderPc.held ∘ s.reader) :=
  ho ▸ h

lemma Inv.exclusion {s : System n} (h : Inv s) : Exclusion s := by
  intro i hw r hr
  exact h.excludes trivial ((writer_held_eq_some _ _).mpr hw) r ((reader_held_eq_some _ _).mpr hr)

/-- A reader moves between two control points at neither of which it holds a block. -/
lemma inv_setReader {s : System n} (h : Inv s) (r : Fin n) (pc : ReaderPc)
    (hold : (s.reader r).held = none) (hnew : pc.held = none) : Inv (s.setReader r pc) := by
  have hsame : ReaderPc.held ∘ Function.update s.reader r pc = ReaderPc.held ∘ s.reader := by
    rw [Function.comp_update, hnew, ← hold]
    exact Function.update_eq_self r _
  unfold Inv
  simp only [System.setReader]
  rw [hsame]
  exact h

theorem inv_move {s s' : System n} {a : Action n} {es : List (Event n)} (h : Inv s)
    (hfree : ReadsFreeLock s a) (hm : Move s a s' es) : Inv s' := by
  cases hm with
  | lockForWrite hp => exact h.of_writer (by simp [hp, WriterPc.held])
  | casWon i hp hw => exact (h.of_writer (by simp [hp, WriterPc.held])).lock_write hw
  | casLost i _ hp ha => exact h.of_writer (by simp [hp, WriterPc.held])
  | releaseWrite i hp => exact (h.of_writer (by simp [hp, WriterPc.held])).unlock_write
  | storePos i hp => exact h.of_writer (by simp [hp, WriterPc.held])
  | lockForRead r hr => exact inv_setReader h r _ (by simp [hr, ReaderPc.held]) rfl
  | refused r hr hpos => exact inv_setReader h r _ (by simp [hr, ReaderPc.held]) rfl
  | loadPos r hr hpos => exact inv_setReader h r _ (by simp [hr, ReaderPc.held]) rfl
  | loadLock r i hr => exact inv_setReader h r _ (by simp [hr, ReaderPc.held]) rfl
  | acquire r i lockNum hr hw =>
    have hnonneg : 0 ≤ s.state.locks i := hw ▸ hfree i lockNum hr hw
    subst hw
    unfold Inv
    rw [Function.comp_update]
    exact h.lock_read (by simp [hr, ReaderPc.held]) hnonneg
  | lost r i lockNum _ hr ha => exact inv_setReader h r _ (by simp [hr, ReaderPc.held]) rfl
  | releaseRead r i hr =>
    unfold Inv
    rw [Function.comp_update]
    exact h.unlock_read (by simp [hr])

/-- A reader whose compare-exchange succeeds below `kRWLockFree` joins the writer. -/
lemma exclusion_broken (hn : n < 2 ^ 31) {s : System n} {a : Action n} (h : Inv s)
    (hbad : ¬ReadsFreeLock s a) : ∃ s' es, step s a = some (s', es) ∧ ¬Exclusion s' := by
  cases a with
  | reader r =>
    simp only [ReadsFreeLock] at hbad
    push Not at hbad
    obtain ⟨i, lockNum, hr, hw, hneg⟩ := hbad
    have hwriter : s.writer = .writing i := by
      by_contra hne
      have hle : countWith (· = some i) (ReaderPc.held ∘ s.reader) ≤ n := by
        simpa using countWith_le_card (· = some i) (ReaderPc.held ∘ s.reader)
      have hcount := (h i trivial).eq_count (by simpa using hne) (by omega)
      unfold kRWLockFree at hneg
      omega
    refine ⟨_, _, by simp only [step, hr, lockForReadCas, if_pos hw]; rfl, ?_⟩
    intro hexcl
    exact hexcl i hwriter r (by simp)
  | writer => exact absurd trivial hbad
  | writerSpurious => exact absurd trivial hbad
  | readerSpurious r => exact absurd trivial hbad

/-- Along every interleaving, exclusion holds in all states reached when no reader's
compare-exchange succeeds on a word below `kRWLockFree`; with fewer than `2 ^ 31` readers it
holds only then. -/
theorem exclusion_iff_readers_read_free_locks (blockNum : ℕ) (as : List (Action n)) :
    (StepsMeet step ReadsFreeLock (start blockNum) as →
      Throughout step Exclusion (start blockNum) as) ∧
    (n < 2 ^ 31 → Throughout step Exclusion (start blockNum) as →
      StepsMeet step ReadsFreeLock (start blockNum) as) := by
  have hstep : ∀ (s : System n) a s' es, Inv s → ReadsFreeLock s a →
      step s a = some (s', es) → Inv s' :=
    fun s a s' es h hfree hs => inv_move h hfree (step_move hs)
  refine ⟨?_, ?_⟩
  · exact throughout_of_stepsMeet hstep (fun s h => h.exclusion) (inv_start blockNum)
  · intro hn
    exact stepsMeet_of_throughout hstep (fun s a h hbad => exclusion_broken hn h hbad)
      (inv_start blockNum)

theorem exclusion_iff_readers_read_free_locks_one_reader :
    Throughout step Exclusion (start 8 : System 1)
      [.writer, .writer, .writer, .writer, .reader 0, .reader 0, .reader 0, .reader 0] := by
  refine (exclusion_iff_readers_read_free_locks (n := 1) 8 _).1 ?_
  refine stepsMeet_cons rfl trivial (stepsMeet_cons rfl trivial (stepsMeet_cons rfl trivial
    (stepsMeet_cons rfl trivial (stepsMeet_cons rfl ?_ (stepsMeet_cons rfl ?_
      (stepsMeet_cons rfl ?_ (stepsMeet_cons rfl ?_ trivial)))))))
  · rintro i lockNum ⟨⟩
  · rintro i lockNum ⟨⟩
  · rintro i lockNum ⟨⟩
  · rintro i lockNum ⟨⟩ -
    decide

/-- After one publication the writer takes block 0 again, and a reader directed to block 0
loads -1 and exchanges it for 0. -/
def sharedBlockRun {n : ℕ} (r : Fin n) : List (Action n) :=
  [.writer, .writer, .writer, .writer, .writer, .writer,
    .reader r, .reader r, .reader r, .reader r]

theorem reader_joins_writer :
    ∃ (s : System 1) (es : List (Event 1)),
      run step (start 8) (sharedBlockRun 0) = some (s, es) ∧
      s.writer = .writing 0 ∧ s.reader 0 = .reading 0 ∧ ¬Exclusion s :=
  ⟨_, _, rfl, rfl, rfl, fun h => h 0 rfl 0 rfl⟩

end CodeC.ShmState
