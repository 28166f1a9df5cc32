import CodeC.Proofs.ThreadPoolTasks

/-!
# Destroying a thread pool

The call of `threadpool_destroy` that sets the flag returns: every run of the workers and of the call
itself ends, with the pool freed. No worker touches freed memory. A second call returns with the lock
held, and nothing that needs the lock happens after it.
-/

namespace CodeC.ThreadPool
open Library

variable {φ ω : Type} {n : ℕ}

/-- The steps of the workers and of the call that destroys the pool -/
def Internal : Action φ ω n → Prop
  | .join => True
  | .work _ => True
  | .call _ => True
  | .finish _ => True
  | .spurious _ => True
  | _ => False

def WorkerPc.isTaken : WorkerPc φ ω → Bool
  | .taken _ => true
  | _ => false

def WorkerPc.isRunning : WorkerPc φ ω → Bool
  | .running _ => true
  | _ => false

/-- The steps that the call that destroys the pool has before it -/
def DestroyPc.left (threadCount : ℕ) : DestroyPc → ℕ
  | .idle => 0
  | .joining i => threadCount - i + 3
  | .freeing => 2
  | .leaving => 1
  | .returned => 0

/-- A bound on the steps that are left after the flag is set: a queued task takes three steps, a worker
three before it calls its task and two in the call, a worker at the lock one. -/
def shutdownWork (s : State φ ω n) : ℕ :=
  3 * s.pool.count + countWith (fun pc => pc.wantsLock = true) s.worker +
    3 * countWith (fun pc => pc.isTaken = true) s.worker +
    2 * countWith (fun pc => pc.isRunning = true) s.worker + s.destroy.left s.pool.threadCount

/-- The flag is set and nobody keeps the lock. -/
def Draining (s : State φ ω n) : Prop :=
  Inv s ∧ s.pool.shutdown ≠ none ∧ s.locked = false

/-- When something has been freed, the flag is set and no worker runs. -/
lemma Inv.freed_allOut {s : State φ ω n} (h : Inv s) (hf : s.freed = true ∨ s.queueFreed = true) :
    s.pool.shutdown ≠ none ∧ s.AllOut := by
  have hok := h.destroy
  cases hd : s.destroy with
  | idle => rw [hd] at hok; simp [hok.2.1, hok.2.2.1] at hf
  | joining i => rw [hd] at hok; simp [hok.2.2.2.1, hok.2.2.2.2] at hf
  | freeing => rw [hd] at hok; exact ⟨hok.1, hok.2.1⟩
  | leaving => rw [hd] at hok; exact ⟨hok.1, hok.2.1⟩
  | returned => rw [hd] at hok; exact ⟨hok.1, hok.2.1⟩

lemma no_task_of_wantsLock {pc : WorkerPc φ ω} (h : pc.wantsLock = true) :
    ¬pc.isTaken = true ∧ ¬pc.isRunning = true := by
  cases pc <;> simp_all [WorkerPc.wantsLock, WorkerPc.isTaken, WorkerPc.isRunning]

lemma Draining.moves {s s' : State φ ω n} {a : Action φ ω n} {es : List (Event φ ω n)}
    (h : Draining s) (ha : Internal a) (hm : Moves s a s' es) :
    Draining s' ∧ shutdownWork s' < shutdownWork s := by
  obtain ⟨hinv, hflag, hlock⟩ := h
  have hflag' : s'.pool.shutdown ≠ none := by
    rw [hm.flag_stable hflag]
    exact hflag
  have hlock' : s'.locked = false := by
    cases hm with
    | again => exact absurd ha id
    | _ => exact hlock
  refine ⟨⟨hinv.moves hm, hflag', hlock'⟩, ?_⟩
  unfold shutdownWork
  cases hm with
  | joined i hd hi hw =>
    simp only [hd, DestroyPc.left]
    omega
  | leaked i hd hi hs =>
    simp only [hd, DestroyPc.left]
    omega
  | freeArrays i hd hi =>
    simp only [hd, DestroyPc.left]
    omega
  | freePool hd hl =>
    simp only [hd, DestroyPc.left]
    omega
  | returns hd =>
    simp only [hd, DestroyPc.left]
    omega
  | workFault w hw hfault =>
    have halive := wantsLock_alive hw
    rw [(hinv.freed_allOut hfault).2 w] at halive
    cases halive
  | wait w hw hopen hc hnone => exact absurd hnone hflag
  | leave w hw hopen hk =>
    obtain ⟨hnotTaken, hnotRunning⟩ := no_task_of_wantsLock hw
    have hlocks := countWith_update_leave (fun pc : WorkerPc φ ω => pc.wantsLock = true) s.worker w
      .exited hw (by simp [WorkerPc.wantsLock])
    have htakes := countWith_update_same (fun pc : WorkerPc φ ω => pc.isTaken = true) s.worker w
      .exited (iff_of_false (by simp [WorkerPc.isTaken]) hnotTaken)
    have hruns := countWith_update_same (fun pc : WorkerPc φ ω => pc.isRunning = true) s.worker w
      .exited (iff_of_false (by simp [WorkerPc.isRunning]) hnotRunning)
    simp only [State.setWorker]
    omega
  | take w hw hopen hc hk hq =>
    obtain ⟨hnotTaken, hnotRunning⟩ := no_task_of_wantsLock hw
    have hlocks := countWith_update_leave (fun pc : WorkerPc φ ω => pc.wantsLock = true) s.worker w
      (.taken (s.pool.queue s.pool.head)) hw (by simp [WorkerPc.wantsLock])
    have htakes := countWith_update_enter (fun pc : WorkerPc φ ω => pc.isTaken = true) s.worker w
      (.taken (s.pool.queue s.pool.head)) hnotTaken rfl
    have hruns := countWith_update_same (fun pc : WorkerPc φ ω => pc.isRunning = true) s.worker w
      (.taken (s.pool.queue s.pool.head)) (iff_of_false (by simp [WorkerPc.isRunning]) hnotRunning)
    simp only [State.setWorker]
    omega
  | call w task hw =>
    have hlocks := countWith_update_same (fun pc : WorkerPc φ ω => pc.wantsLock = true) s.worker w
      (.running task) (by simp [hw, WorkerPc.wantsLock])
    have htakes := countWith_update_leave (fun pc : WorkerPc φ ω => pc.isTaken = true) s.worker w
      (.running task) (by simp [hw, WorkerPc.isTaken]) (by simp [WorkerPc.isTaken])
    have hruns := countWith_update_enter (fun pc : WorkerPc φ ω => pc.isRunning = true) s.worker w
      (.running task) (by simp [hw, WorkerPc.isRunning]) rfl
    simp only [State.setWorker]
    omega
  | finish w task hw =>
    have hlocks := countWith_update_enter (fun pc : WorkerPc φ ω => pc.wantsLock = true) s.worker w
      .locking (by simp [hw, WorkerPc.wantsLock]) rfl
    have htakes := countWith_update_same (fun pc : WorkerPc φ ω => pc.isTaken = true) s.worker w
      .locking (by simp [hw, WorkerPc.isTaken])
    have hruns := countWith_update_leave (fun pc : WorkerPc φ ω => pc.isRunning = true) s.worker w
      .locking (by simp [hw, WorkerPc.isRunning]) (by simp [WorkerPc.isRunning])
    simp only [State.setWorker]
    omega
  | spurious w hw =>
    have hworker := hinv.workers w
    rw [hw] at hworker
    exact absurd hworker.2 hflag
  | _ => exact absurd ha id

/-- A worker that is alive after the flag is set can take a step. -/
lemma Draining.worker_enabled {s : State φ ω n} (h : Draining s) (hfreed : s.freed = false)
    {w : Fin n} (hw : (s.worker w).alive = true) : ∃ a, Internal a ∧ step s a ≠ none := by
  have hlocked : (s.worker w).wantsLock = true → step s (.work w) ≠ none := by
    intro hwants
    simp only [step, work, hwants, hfreed, h.2.2, if_true]
    obtain ⟨-, -, hturn⟩ | ⟨-, hturn⟩ | ⟨-, -, hturn⟩ := threadpoolThread_cases s.pool
    · simp [hturn]
    · simp [hturn]
    · cases hq : s.queueFreed <;> simp [hturn]
  cases hpc : s.worker w with
  | unborn => simp [hpc, WorkerPc.alive] at hw
  | exited => simp [hpc, WorkerPc.alive] at hw
  | locking => exact ⟨.work w, trivial, hlocked (by simp [hpc, WorkerPc.wantsLock])⟩
  | woken => exact ⟨.work w, trivial, hlocked (by simp [hpc, WorkerPc.wantsLock])⟩
  | taken task => exact ⟨.call w, trivial, by simp [step, call, hpc]⟩
  | running task => exact ⟨.finish w, trivial, by simp [step, finish, hpc]⟩
  | waiting =>
    have hok := h.1.workers w
    rw [hpc] at hok
    exact absurd hok.2 h.2.1

/-- When the workers have exited, the call that destroys the pool can take a step until it returns. -/
lemma Draining.join_enabled {s : State φ ω n} (h : Draining s) (hout : s.AllOut)
    (hd : s.destroy ≠ .returned) : step s .join ≠ none := by
  have hok := h.1.destroy
  simp only [step, join]
  cases hpc : s.destroy with
  | idle =>
    rw [hpc] at hok
    exact absurd hok.1 h.2.1
  | returned => exact absurd hpc hd
  | freeing => simp [h.2.2]
  | leaving => simp
  | joining i =>
    by_cases hi : i < s.pool.threadCount
    · have hexit : ∀ w : Fin n, w.val = i → (s.worker w).isExited = true := by
        rintro w rfl
        have hworker := h.1.workers w
        have hw := hout w
        cases hwpc : s.worker w with
        | unborn =>
          rw [hwpc] at hworker
          change s.pool.threadCount ≤ w.val at hworker
          omega
        | exited => rfl
        | _ => simp [hwpc, WorkerPc.alive] at hw
      simp only [if_pos hi, if_pos hexit]
      simp
    · by_cases hs : 0 < s.pool.started <;> simp [hi, hs]

/-- When the call has returned, neither it nor a worker has a step left. -/
lemma stuck_of_returned {s : State φ ω n} (hout : s.AllOut) (hd : s.destroy = .returned)
    {a : Action φ ω n} (ha : Internal a) : step s a = none := by
  have hworker : ∀ w, s.worker w = .unborn ∨ s.worker w = .exited := by
    intro w
    have hw := hout w
    cases hpc : s.worker w with
    | unborn => exact Or.inl rfl
    | exited => exact Or.inr rfl
    | _ => simp [hpc, WorkerPc.alive] at hw
  cases a with
  | join => simp [step, join, hd]
  | work w => rcases hworker w with hw | hw <;> simp [step, work, hw, WorkerPc.wantsLock]
  | call w => rcases hworker w with hw | hw <;> simp [step, call, hw]
  | finish w => rcases hworker w with hw | hw <;> simp [step, finish, hw]
  | spurious w => rcases hworker w with hw | hw <;> simp [step, spurious, hw, WorkerPc.isWaiting]
  | _ => exact absurd ha id

/-- After the flag is set, and unless a second call has left the lock locked, the workers and the call
of `threadpool_destroy` can take at most `shutdownWork` steps between them, in any order. They stop
exactly when the call has returned, and then the pool is freed and no worker alive. -/
theorem destroy_returns (threadCount queueSize : ℤ) (queue : ℕ → Task φ ω)
    (s t u : State φ ω threadCount.toNat) (as bs : List (Action φ ω threadCount.toNat))
    (es fs : List (Event φ ω threadCount.toNat))
    (hcreate : threadpoolCreate threadCount queueSize queue = some s)
    (hrun : run step s as = some (t, es)) (hflag : t.pool.shutdown ≠ none)
    (hlock : t.locked = false) (hinternal : ∀ b ∈ bs, Internal b)
    (hcont : run step t bs = some (u, fs)) :
    bs.length ≤ shutdownWork t ∧
      ((∀ a, Internal a → step u a = none) ↔ u.destroy = .returned) ∧
      (u.destroy = .returned → u.freed = true ∧ ∀ w, (u.worker w).alive = false) := by
  have hdraining : Draining t := ⟨(inv_create hcreate).run hrun, hflag, hlock⟩
  obtain ⟨hu, hlen⟩ := run_length_le step shutdownWork
    (fun v a v' gs hv ha hs => hv.moves ha (moves_of_step hs)) hinternal hdraining hcont
  have hok := hu.1.destroy
  have hreturned : u.destroy = .returned → u.freed = true ∧ ∀ w, (u.worker w).alive = false := by
    intro hret
    rw [hret] at hok
    exact ⟨hok.2.2, hok.2.1⟩
  refine ⟨by omega, ⟨fun hstuck => ?_, fun hret a ha => ?_⟩, hreturned⟩
  · have hout : u.AllOut := by
      intro w
      by_contra hw
      have hfreed : u.freed = false := by
        by_contra hf
        exact hw ((hu.1.freed_allOut (Or.inl (eq_true_of_ne_false hf))).2 w)
      obtain ⟨a, ha, hne⟩ := hu.worker_enabled hfreed (eq_true_of_ne_false hw)
      exact hne (hstuck a ha)
    by_contra hd
    exact hu.join_enabled hout hd (hstuck .join trivial)
  · exact stuck_of_returned (hreturned hret).2 hret ha

/-- The flag is set when the worker of a pool of one has taken a task. -/
def drainingRun : List (Action ℕ ℕ (Int.toNat 1)) :=
  [.spawn, .add (some 7) 1 none, .work soleWorker, .destroy 1#32]

/-- What the worker and the call of `threadpool_destroy` then do -/
def drain : List (Action ℕ ℕ (Int.toNat 1)) :=
  [.call soleWorker, .finish soleWorker, .work soleWorker, .join, .join, .join, .join]

theorem destroy_returns_one_worker :
    ∃ s t es u fs, threadpoolCreate 1 2 (fun _ => (⟨0, 0⟩ : Task ℕ ℕ)) = some s ∧
      run step s drainingRun = some (t, es) ∧ run step t drain = some (u, fs) ∧
      drain.length ≤ shutdownWork t ∧ (∀ a, Internal a → step u a = none) ∧
      u.destroy = .returned ∧ u.freed = true ∧ ∀ w, (u.worker w).alive = false := by
  refine ⟨_, _, _, _, _, rfl, rfl, rfl, ?_⟩
  have hreturns := destroy_returns 1 2 (fun _ => (⟨0, 0⟩ : Task ℕ ℕ)) _ _ _ drainingRun drain _ _
    rfl rfl (Option.some_ne_none _) rfl (by simp [drain, Internal]) rfl
  exact ⟨hreturns.1, hreturns.2.1.mpr rfl, rfl, hreturns.2.2 rfl⟩

/-- Accesses to freed memory come from callers, after the pool has been freed. -/
def FaultHistory (s : State φ ω n) (es : List (Event φ ω n)) : Prop :=
  (s.freed = true ↔ .freed ∈ es) ∧
    ∀ fs who gs, es = fs ++ .fault who :: gs → who = none ∧ .freed ∈ fs

/-- A step emits a fault only for a caller that finds the pool freed. -/
lemma Moves.fault {s s' : State φ ω n} {a : Action φ ω n} {es : List (Event φ ω n)} (h : Inv s)
    (hm : Moves s a s' es) {who : Option (Fin n)} (hf : .fault who ∈ es) :
    es = [.fault none] ∧ who = none ∧ s.freed = true := by
  cases hm with
  | addFault f argument wakee hfault =>
    obtain rfl : who = none := by simpa using hf
    refine ⟨rfl, rfl, ?_⟩
    rcases hfault with hfreed | ⟨hflag, hqueue⟩
    · exact hfreed
    · exact absurd hflag (h.freed_allOut (Or.inr hqueue)).1
  | destroyFault flags hfreed =>
    obtain rfl : who = none := by simpa using hf
    exact ⟨rfl, rfl, hfreed⟩
  | workFault w hw hfault =>
    have halive := wantsLock_alive hw
    rw [(h.freed_allOut hfault).2 w] at halive
    cases halive
  | _ => simp at hf

/-- Only `free(pool)` frees the pool. -/
lemma Moves.freed_iff {s s' : State φ ω n} {a : Action φ ω n} {es : List (Event φ ω n)}
    (hm : Moves s a s' es) : s'.freed = true ↔ s.freed = true ∨ .freed ∈ es := by
  cases hm with
  | freePool => simp
  | _ => simp [State.setWorker]

lemma FaultHistory.moves {s s' : State φ ω n} {a : Action φ ω n} {es fs : List (Event φ ω n)}
    (hinv : Inv s) (h : FaultHistory s es) (hm : Moves s a s' fs) : FaultHistory s' (es ++ fs) := by
  constructor
  · rw [hm.freed_iff, h.1, List.mem_append]
  · intro gs who hs heq
    rcases List.append_eq_append_iff.mp heq with ⟨ks, rfl, hfs⟩ | ⟨ks, rfl, hes⟩
    · -- the fault is emitted by this step
      have hmem : .fault who ∈ fs := by simp [hfs]
      obtain ⟨-, hwho, hfreed⟩ := hm.fault hinv hmem
      exact ⟨hwho, List.mem_append_left ks (h.1.mp hfreed)⟩
    · cases ks with
      | nil =>
        rw [List.nil_append] at hes
        have hmem : .fault who ∈ fs := by simp [← hes]
        obtain ⟨-, hwho, hfreed⟩ := hm.fault hinv hmem
        have hmem' := h.1.mp hfreed
        rw [List.append_nil] at hmem'
        exact ⟨hwho, hmem'⟩
      | cons k ks =>
        obtain ⟨rfl, rfl⟩ := List.cons.inj hes
        exact h.2 gs who ks rfl

/-- In every run, no worker accesses the pool or its arrays after they have been freed, and a caller
does so only after `free(pool)`, which comes before the return of `threadpool_destroy`. Once the pool is
freed no worker is alive; a call that has returned without an error has freed it: the branch of
`threadpool_free` that keeps a pool with started threads is never taken. -/
theorem freed_pool_is_not_accessed (threadCount queueSize : ℤ) (queue : ℕ → Task φ ω)
    (s t : State φ ω threadCount.toNat) (as : List (Action φ ω threadCount.toNat))
    (es : List (Event φ ω threadCount.toNat))
    (hcreate : threadpoolCreate threadCount queueSize queue = some s)
    (hrun : run step s as = some (t, es)) :
    (∀ fs who gs, es = fs ++ .fault who :: gs → who = none ∧ .freed ∈ fs) ∧
      (.freed ∈ es → ∀ w, (t.worker w).alive = false) ∧ (.destroyed none ∈ es → .freed ∈ es) := by
  have hstart : FaultHistory s [] := by
    unfold threadpoolCreate at hcreate
    split at hcreate
    · cases hcreate
    · cases hcreate
      refine ⟨by simp, fun fs who gs heq => ?_⟩
      simp at heq
  have hfault := run_invariant_events step (fun v gs => Inv v ∧ FaultHistory v gs) ?_
    ⟨inv_create hcreate, hstart⟩ hrun
  · obtain ⟨hinv, hfreed, hfaults⟩ := hfault
    refine ⟨hfaults, fun hf => (hinv.freed_allOut (Or.inl (hfreed.mpr hf))).2, fun hd => ?_⟩
    have hret := ((history_create hcreate).run hrun).shutdown.2 hd
    have hok := hinv.destroy
    rw [hret] at hok
    exact hfreed.mp hok.2.2
  · rintro v gs a v' hs ⟨hinv, hv⟩ hstep
    have hm := moves_of_step hstep
    exact ⟨hinv.moves hm, hv.moves hinv hm⟩

/-- `threadpool_add` on a pool that has been freed by a `threadpool_destroy` that has not returned -/
def lateAddRun : List (Action ℕ ℕ (Int.toNat 1)) :=
  [.spawn, .destroy 0#32, .work soleWorker, .join, .join, .join, .add (some 7) 1 none]

theorem freed_pool_is_not_accessed_late_add :
    ∃ s t, threadpoolCreate 1 2 (fun _ => (⟨0, 0⟩ : Task ℕ ℕ)) = some s ∧
      run step s lateAddRun = some (t, [.shuttingDown .immediate, .exited soleWorker, .freed,
        .fault none]) ∧ t.destroy = .leaving ∧ (t.worker soleWorker).alive = false := by
  refine ⟨_, _, rfl, rfl, rfl, ?_⟩
  exact (freed_pool_is_not_accessed 1 2 (fun _ => (⟨0, 0⟩ : Task ℕ ℕ)) _ _ lateAddRun _ rfl rfl).2.1
    (by simp) soleWorker

/-- The lock is held by a call of `threadpool_destroy` that has returned. -/
def Stuck (s : State φ ω n) : Prop :=
  Inv s ∧ s.locked = true ∧ s.freed = false ∧ s.pool.shutdown ≠ none

/-- What a thread can still do: start and finish the task it has taken, or call `threadpool_add` without
a function. -/
def Event.Harmless : Event φ ω n → Prop
  | .started _ _ => True
  | .finished _ _ => True
  | .refused .invalid => True
  | _ => False

lemma alive_update {worker : Fin n → WorkerPc φ ω} {w : Fin n} {pc : WorkerPc φ ω}
    (h : pc.alive = (worker w).alive) (u : Fin n) :
    (Function.update worker w pc u).alive = (worker u).alive := by
  by_cases hu : u = w
  · subst hu
    rw [Function.update_self, h]
  · rw [Function.update_of_ne hu]

lemma Stuck.moves {s s' : State φ ω n} {a : Action φ ω n} {es : List (Event φ ω n)} (h : Stuck s)
    (hm : Moves s a s' es) :
    Stuck s' ∧ (∀ e ∈ es, e.Harmless) ∧ ∀ w, (s'.worker w).alive = (s.worker w).alive := by
  obtain ⟨hinv, hlock, hfreed, hflag⟩ := h
  have hinv' := hinv.moves hm
  have hflag' : s'.pool.shutdown ≠ none := by
    rw [hm.flag_stable hflag]
    exact hflag
  have hclosed : ¬s.Open := by
    intro hopen
    rw [hopen.2] at hlock
    cases hlock
  have hstart := hinv.create_ne_starting hflag
  cases hm with
  | spawn i hc hi => exact absurd hc hstart
  | spawnFails hc => exact absurd hc hstart
  | invalid => exact ⟨⟨hinv', hlock, hfreed, hflag'⟩, by simp [Event.Harmless], fun _ => rfl⟩
  | addFault f argument wakee hfault =>
    rcases hfault with hf | ⟨hnone, -⟩
    · rw [hfreed] at hf
      cases hf
    · exact absurd hnone hflag
  | destroyFault flags hf =>
    rw [hfreed] at hf
    cases hf
  | joined i hd hi hw => exact ⟨⟨hinv', hlock, hfreed, hflag'⟩, by simp, fun _ => rfl⟩
  | leaked i hd hi hs =>
    have hok := hinv.destroy
    rw [hd] at hok
    exact absurd (allOut_of_joined hinv hi hok.2.2.1) (hinv.started_pos_iff.mp hs)
  | freeArrays i hd hi => exact ⟨⟨hinv', hlock, hfreed, hflag'⟩, by simp, fun _ => rfl⟩
  | freePool hd hl =>
    rw [hl] at hlock
    cases hlock
  | returns hd =>
    have hok := hinv.destroy
    rw [hd, DestroyOk, hfreed] at hok
    cases hok.2.2
  | workFault w hw hfault =>
    have halive := wantsLock_alive hw
    rw [(hinv.freed_allOut hfault).2 w] at halive
    cases halive
  | call w task hw =>
    exact ⟨⟨hinv', hlock, hfreed, hflag'⟩, by simp [Event.Harmless],
      alive_update (by simp [hw, WorkerPc.alive])⟩
  | finish w task hw =>
    exact ⟨⟨hinv', hlock, hfreed, hflag'⟩, by simp [Event.Harmless],
      alive_update (by simp [hw, WorkerPc.alive])⟩
  | spurious w hw =>
    have hworker := hinv.workers w
    rw [hw] at hworker
    exact absurd hworker.2 hflag
  | refused f argument wakee e hopen => exact absurd hopen hclosed
  | added f argument wakee worker hopen => exact absurd hopen hclosed
  | again flags hopen => exact absurd hopen hclosed
  | shutdown flags hopen => exact absurd hopen hclosed
  | wait w hw hopen => exact absurd hopen hclosed
  | leave w hw hopen => exact absurd hopen hclosed
  | take w hw hopen => exact absurd hopen hclosed

/-- The error `threadpool_shutdown` of `threadpool_destroy` leaves the lock locked. -/
def AgainHistory (s : State φ ω n) (es : List (Event φ ω n)) : Prop :=
  .destroyed (some .shutdown) ∈ es → Stuck s

lemma AgainHistory.moves {s s' : State φ ω n} {a : Action φ ω n} {es fs : List (Event φ ω n)}
    (hinv : Inv s) (h : AgainHistory s es) (hm : Moves s a s' fs) : AgainHistory s' (es ++ fs) := by
  intro hd
  rcases List.mem_append.mp hd with hd | hd
  · exact ((h hd).moves hm).1
  · have hinv' := hinv.moves hm
    cases hm with
    | again flags hopen hflag => exact ⟨hinv', rfl, hopen.1, hflag⟩
    | _ => simp at hd

/-- A second call of `threadpool_destroy` returns `threadpool_shutdown` with the lock held. After it,
whatever the threads do, no task is taken, no worker exits, no `threadpool_add` of a function and no
`threadpool_destroy` returns, the one that set the flag included: the only events are starts and ends of
tasks that had been taken, and calls without a function. -/
theorem second_destroy_blocks_the_pool (threadCount queueSize : ℤ) (queue : ℕ → Task φ ω)
    (s t u : State φ ω threadCount.toNat) (as bs : List (Action φ ω threadCount.toNat))
    (es fs : List (Event φ ω threadCount.toNat))
    (hcreate : threadpoolCreate threadCount queueSize queue = some s)
    (hrun : run step s as = some (t, es)) (hsecond : .destroyed (some .shutdown) ∈ es)
    (hcont : run step t bs = some (u, fs)) :
    (∀ e ∈ fs, e.Harmless) ∧ u.freed = false ∧ ∀ w, (u.worker w).alive = (t.worker w).alive := by
  have hagain := run_invariant_events step (fun v gs => Inv v ∧ AgainHistory v gs) ?_
    ⟨inv_create hcreate, fun hd => absurd hd List.not_mem_nil⟩ hrun
  · have hstuck : Stuck t := hagain.2 hsecond
    have hu := run_invariant_events step
      (fun v gs => Stuck v ∧ (∀ e ∈ gs, e.Harmless) ∧
        ∀ w, (v.worker w).alive = (t.worker w).alive) ?_
      ⟨hstuck, by simp, fun _ => rfl⟩ hcont
    · exact ⟨hu.2.1, hu.1.2.2.1, hu.2.2⟩
    · rintro v gs a v' hs ⟨hv, hharmless, halive⟩ hstep
      obtain ⟨hv', hnew, hsame⟩ := hv.moves (moves_of_step hstep)
      refine ⟨hv', ?_, fun w => (hsame w).trans (halive w)⟩
      intro e he
      rcases List.mem_append.mp he with he | he
      · exact hharmless e he
      · exact hnew e he
  · rintro v gs a v' hs ⟨hinv, hv⟩ hstep
    have hm := moves_of_step hstep
    exact ⟨hinv.moves hm, hv.moves hinv hm⟩

/-- Two calls of `threadpool_destroy` when a task has been taken -/
def secondDestroyRun : List (Action ℕ ℕ (Int.toNat 1)) :=
  [.spawn, .add (some 7) 1 none, .work soleWorker, .destroy 1#32, .destroy 1#32]

theorem second_destroy_blocks_the_pool_one_worker :
    ∃ s t u fs, threadpoolCreate 1 2 (fun _ => (⟨0, 0⟩ : Task ℕ ℕ)) = some s ∧
      run step s secondDestroyRun = some (t, [.added ⟨7, 1⟩, .took soleWorker ⟨7, 1⟩,
        .shuttingDown .graceful, .destroyed (some .shutdown)]) ∧
      run step t [.call soleWorker, .finish soleWorker] = some (u, fs) ∧ u.freed = false ∧
      (u.worker soleWorker).alive = true := by
  refine ⟨_, _, _, _, rfl, rfl, rfl, ?_⟩
  have h := second_destroy_blocks_the_pool 1 2 (fun _ => (⟨0, 0⟩ : Task ℕ ℕ)) _ _ _ secondDestroyRun
    [.call soleWorker, .finish soleWorker] _ _ rfl rfl (by simp) rfl
  exact ⟨h.2.1, h.2.2 soleWorker⟩

end CodeC.ThreadPool
