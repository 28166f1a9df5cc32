import CodeC.ShmPubSub

/-!
# The calls of `ShmBlock` as runs of the lock table

The lock operations that `ShmPubSub` takes as one step are the uninterrupted runs of the atomic
steps of `ShmState`.
-/

namespace CodeC.ShmPubSub
open Library ShmState

variable {n : ℕ}

/-- `LockForRead` loads the position and the lock word and exchanges the word. -/
theorem lockForRead_runs (sys : System n) (r : Fin n) (hr : sys.reader r = .idle)
    {st : ShmState.State} {i : ℕ} (h : lockForRead sys.state = some (st, i)) :
    run ShmState.step sys [.reader r, .reader r, .reader r, .reader r] =
      some ({ sys with state := st, reader := Function.update sys.reader r (.reading i) },
        [.readLocked r i]) := by
  unfold lockForRead at h
  by_cases hpos : sys.state.readPos < 0
  · simp [hpos] at h
  · simp only [hpos, if_false, Option.some.injEq, Prod.mk.injEq] at h
    obtain ⟨rfl, rfl⟩ := h
    simp [run, ShmState.step, hr, System.setReader, lockForReadPos, hpos, lockForReadLoad,
      kRWLockFree, lockForReadCas]

/-- It returns -1 after the load of the position. -/
theorem lockForRead_refused (sys : System n) (r : Fin n) (hr : sys.reader r = .idle)
    (h : lockForRead sys.state = none) :
    run ShmState.step sys [.reader r, .reader r] = some (sys, [.readRefused r]) := by
  have hpos : sys.state.readPos < 0 := by
    by_contra hpos
    simp [lockForRead, hpos] at h
  have hself : Function.update sys.reader r .idle = sys.reader := by
    rw [← hr]
    exact Function.update_eq_self r _
  simp [run, ShmState.step, hr, System.setReader, lockForReadPos, hpos, hself]

theorem releaseReadLock_runs (sys : System n) (r : Fin n) (i : ℕ)
    (hr : sys.reader r = .reading i) :
    run ShmState.step sys [.reader r] =
      some ({ sys with
        state := releaseReadLock sys.state i
        reader := Function.update sys.reader r .idle }, [.readReleased r i]) := by
  simp [run, ShmState.step, hr, ShmState.releaseReadLock, releaseReadLock]

theorem releaseWriteLock_runs (sys : System n) (i : ℕ) (hw : sys.writer = .writing i) :
    run ShmState.step sys [.writer, .writer] =
      some ({ sys with state := releaseWriteLock sys.state i, writer := .idle },
        [.writeReleased i, .readPosStored i]) := by
  simp [run, ShmState.step, hw, ShmState.releaseWriteLock, releaseWriteLockPos, releaseWriteLock]

/-- The scan of `LockForWrite` from its `j`-th block on. -/
lemma scan_runs (sys : System n) (j m i : ℕ)
    (hw : sys.writer = .locking ((sys.state.writePos + j) % sys.state.blockNum))
    (h : (((List.range' j m).map fun j => (sys.state.writePos + j) % sys.state.blockNum).find?
      fun i => sys.state.locks i = kRWLockFree) = some i) :
    ∃ k, run ShmState.step sys (List.replicate k .writer) =
      some ({ sys with
        state := { sys.state with locks := Function.update sys.state.locks i kWriteExclusive }
        writer := .writing i }, [.writeLocked i]) := by
  induction m generalizing sys j with
  | zero => simp at h
  | succ m ih =>
    rw [List.range'_succ, List.map_cons, List.find?_cons] at h
    by_cases hfree : sys.state.locks ((sys.state.writePos + j) % sys.state.blockNum) = kRWLockFree
    · simp only [hfree, decide_true, Option.some.injEq] at h
      subst h
      exact ⟨1, by simp [run, ShmState.step, hw, lockForWriteCas, hfree]⟩
    · simp only [hfree, decide_false] at h
      have hnext : ((sys.state.writePos + j) % sys.state.blockNum + 1) % sys.state.blockNum =
          (sys.state.writePos + (j + 1)) % sys.state.blockNum := by
        rw [Nat.mod_add_mod, Nat.add_assoc]
      obtain ⟨k, hk⟩ := ih
        { sys with writer := .locking ((sys.state.writePos + (j + 1)) % sys.state.blockNum) }
        (j + 1) rfl h
      refine ⟨k + 1, ?_⟩
      rw [List.replicate_succ, run_cons_iff]
      refine ⟨_, [], _, ?_, hk, rfl⟩
      simp [ShmState.step, hw, lockForWriteCas, hfree, hnext]

/-- `LockForWrite` takes the first free block after enough iterations. -/
theorem lockForWrite_runs (sys : System n) (hidle : sys.writer = .idle)
    (hpos : sys.state.writePos < sys.state.blockNum) {st : ShmState.State} {i : ℕ}
    (h : lockForWrite sys.state = some (st, i)) :
    ∃ k, run ShmState.step sys (List.replicate k .writer) =
      some ({ sys with state := st, writer := .writing i }, [.writeLocked i]) := by
  obtain ⟨i', hfind, heq⟩ := Option.map_eq_some_iff.mp h
  obtain ⟨rfl, rfl⟩ := Prod.mk.inj heq
  rw [List.range_eq_range'] at hfind
  obtain ⟨k, hk⟩ := scan_runs { sys with writer := .locking sys.state.writePos } 0 _ _
    (by simp [Nat.mod_eq_of_lt hpos]) hfind
  refine ⟨k + 1, ?_⟩
  rw [List.replicate_succ, run_cons_iff]
  exact ⟨_, [], _, by simp [ShmState.step, hidle], hk, rfl⟩

end CodeC.ShmPubSub
