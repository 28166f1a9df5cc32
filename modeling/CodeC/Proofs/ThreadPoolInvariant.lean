import CodeC.Proofs.ThreadPoolSteps

/-!
# The invariant of the thread pool

Which workers exist and what the flag says about each of them, the counter `started`, and what holds
at each control point of `threadpool_create` and of the call that destroys the pool.
-/

namespace CodeC.ThreadPool
open Library

variable {φ ω : Type} {n : ℕ}

/-- What the pool says about worker `w` at each of its control points. -/
def WorkerOk (p : Pool φ ω) (w : Fin n) : WorkerPc φ ω → Prop
  | .unborn => p.threadCount ≤ w
  | .locking => w < p.threadCount
  | .waiting => w < p.threadCount ∧ p.shutdown = none
  | .woken => w < p.threadCount
  | .taken _ => w < p.threadCount
  | .running _ => w < p.threadCount
  | .exited => w < p.threadCount ∧ p.shutdown ≠ none ∧ (p.shutdown = some .graceful → p.count = 0)

/-- The worker has been started and has not exited. -/
def WorkerPc.alive : WorkerPc φ ω → Bool
  | .unborn => false
  | .exited => false
  | _ => true

/-- No worker runs. -/
def State.AllOut (s : State φ ω n) : Prop := ∀ w, (s.worker w).alive = false

/-- What holds at each control point of the call that destroys the pool. -/
def DestroyOk (s : State φ ω n) : DestroyPc → Prop
  | .idle => s.pool.shutdown = none ∧ s.queueFreed = false ∧ s.freed = false ∧ s.locked = false
  | .joining i => s.pool.shutdown ≠ none ∧ i ≤ s.pool.threadCount ∧
      (∀ w : Fin n, w.val < i → s.worker w = .exited) ∧ s.queueFreed = false ∧ s.freed = false
  | .freeing => s.pool.shutdown ≠ none ∧ s.AllOut ∧ s.freed = false
  | .leaving => s.pool.shutdown ≠ none ∧ s.AllOut ∧ s.freed = true
  | .returned => s.pool.shutdown ≠ none ∧ s.AllOut ∧ s.freed = true

/-- What holds at each control point of `threadpool_create`. -/
def CreateOk (s : State φ ω n) : CreatePc → Prop
  | .starting => s.pool.shutdown = none ∧ s.pool.threadCount < n
  | .returned => s.pool.threadCount = n
  | .failed => s.pool.threadCount < n ∧ s.pool.shutdown ≠ some .graceful

structure Inv (s : State φ ω n) : Prop where
  workers : ∀ w, WorkerOk s.pool w (s.worker w)
  started : s.pool.started = countWith (fun pc => pc.alive = true) s.worker
  create : CreateOk s s.create
  destroy : DestroyOk s s.destroy

lemma inv_create {threadCount queueSize : ℤ} {queue : ℕ → Task φ ω}
    {s : State φ ω threadCount.toNat} (h : threadpoolCreate threadCount queueSize queue = some s) :
    Inv s := by
  unfold threadpoolCreate at h
  split at h
  · cases h
  · case isFalse hargs =>
    cases h
    have hpos : 0 < threadCount.toNat := by omega
    refine ⟨fun w => Nat.zero_le _, ?_, ⟨rfl, hpos⟩, ⟨rfl, rfl, rfl, rfl⟩⟩
    have hnone := (countWith_eq_zero_iff (fun pc : WorkerPc φ ω => pc.alive = true)
      (fun _ : Fin threadCount.toNat => WorkerPc.unborn)).mpr (by simp [WorkerPc.alive])
    rw [hnone]
    rfl

lemma WorkerOk.lt {p : Pool φ ω} {w : Fin n} {pc : WorkerPc φ ω} (h : WorkerOk p w pc)
    (hborn : pc ≠ .unborn) : w < p.threadCount := by
  cases pc with
  | unborn => exact absurd rfl hborn
  | locking => exact h
  | waiting => exact h.1
  | woken => exact h
  | taken task => exact h
  | running task => exact h
  | exited => exact h.1

/-- A step that leaves the number of workers and the flag alone, and does not fill an empty queue
after the flag is set, says the same about every worker that does not move. -/
lemma WorkerOk.congr {p p' : Pool φ ω} {w : Fin n} {pc : WorkerPc φ ω} (h : WorkerOk p w pc)
    (hthreads : p'.threadCount = p.threadCount) (hflag : p'.shutdown = p.shutdown)
    (hcount : p.shutdown ≠ none → p.count = 0 → p'.count = 0) : WorkerOk p' w pc := by
  cases pc with
  | unborn => exact hthreads.trans_le h
  | locking => exact h.trans_eq hthreads.symm
  | waiting => exact ⟨h.1.trans_eq hthreads.symm, hflag.trans h.2⟩
  | woken => exact h.trans_eq hthreads.symm
  | taken task => exact h.trans_eq hthreads.symm
  | running task => exact h.trans_eq hthreads.symm
  | exited =>
    refine ⟨h.1.trans_eq hthreads.symm, by rw [hflag]; exact h.2.1, fun hk => ?_⟩
    rw [hflag] at hk
    exact hcount h.2.1 (h.2.2 hk)

lemma wantsLock_ne_unborn {pc : WorkerPc φ ω} (h : pc.wantsLock = true) : pc ≠ .unborn := by
  rintro rfl
  simp [WorkerPc.wantsLock] at h

lemma wantsLock_alive {pc : WorkerPc φ ω} (h : pc.wantsLock = true) : pc.alive = true := by
  cases pc <;> simp_all [WorkerPc.wantsLock, WorkerPc.alive]

lemma alive_wake (pc : WorkerPc φ ω) : pc.wake.alive = pc.alive := by
  cases pc <;> rfl

/-- One worker moves to `pc`, and the pool says the same as before about the others. -/
lemma workersOk_update {p p' : Pool φ ω} {worker : Fin n → WorkerPc φ ω} {w : Fin n}
    {pc : WorkerPc φ ω} (h : ∀ u, WorkerOk p u (worker u)) (hpc : WorkerOk p' w pc)
    (hthreads : p'.threadCount = p.threadCount) (hflag : p'.shutdown = p.shutdown)
    (hcount : p.shutdown ≠ none → p.count = 0 → p'.count = 0) :
    ∀ u, WorkerOk p' u (Function.update worker w pc u) := by
  rw [Function.forall_update_iff worker fun u => WorkerOk p' u]
  exact ⟨hpc, fun u _ => (h u).congr hthreads hflag hcount⟩

lemma workersOk_signalled {p : Pool φ ω} {worker worker' : Fin n → WorkerPc φ ω}
    (h : ∀ u, WorkerOk p u (worker u)) (hs : Signalled worker worker') :
    ∀ u, WorkerOk p u (worker' u) := by
  cases hs with
  | nobody => exact h
  | wakes u hu =>
    have hlt : u < p.threadCount := (h u).lt (by simp [hu])
    exact workersOk_update h hlt rfl rfl fun _ hc => hc

lemma Inv.workers_moves {s s' : State φ ω n} {a : Action φ ω n} {es : List (Event φ ω n)}
    (h : Inv s) (hm : Moves s a s' es) : ∀ w, WorkerOk s'.pool w (s'.worker w) := by
  have hlt : ∀ w, (s.worker w).wantsLock = true → w < s.pool.threadCount :=
    fun w hw => (h.workers w).lt (wantsLock_ne_unborn hw)
  cases hm with
  | spawn i hc hi =>
    have hflag : s.pool.shutdown = none := by
      have hcreate := h.create
      rw [hc] at hcreate
      exact hcreate.1
    dsimp only
    rw [Function.forall_update_iff s.worker fun u => WorkerOk _ u]
    refine ⟨?_, fun u hu => ?_⟩
    · change i.val < s.pool.threadCount + 1
      omega
    · have hok := h.workers u
      have hne : u.val ≠ i.val := fun he => hu (Fin.ext he)
      cases hpc : s.worker u with
      | unborn =>
        rw [hpc] at hok
        change s.pool.threadCount + 1 ≤ u.val
        change s.pool.threadCount ≤ u.val at hok
        omega
      | locking => exact Nat.lt_succ_of_lt (hok.lt (by simp [hpc]))
      | waiting => exact ⟨Nat.lt_succ_of_lt (hok.lt (by simp [hpc])), hflag⟩
      | woken => exact Nat.lt_succ_of_lt (hok.lt (by simp [hpc]))
      | taken task => exact Nat.lt_succ_of_lt (hok.lt (by simp [hpc]))
      | running task => exact Nat.lt_succ_of_lt (hok.lt (by simp [hpc]))
      | exited =>
        rw [hpc] at hok
        exact absurd hflag hok.2.1
  | added f argument wakee worker hopen hcreate hroom hflag hqueue hsignal =>
    intro u
    exact (workersOk_signalled h.workers hsignal u).congr rfl rfl fun hne => absurd hflag hne
  | shutdown flags hopen hcreate hflag =>
    intro u
    have hok := h.workers u
    change WorkerOk _ u (s.worker u).wake
    cases hpc : s.worker u with
    | unborn => rw [hpc] at hok; exact hok
    | locking => rw [hpc] at hok; exact hok
    | waiting => rw [hpc] at hok; exact hok.1
    | woken => rw [hpc] at hok; exact hok
    | taken task => rw [hpc] at hok; exact hok
    | running task => rw [hpc] at hok; exact hok
    | exited => rw [hpc] at hok; exact absurd hflag hok.2.1
  | wait w hw hopen hc hflag =>
    exact workersOk_update h.workers ⟨hlt w hw, hflag⟩ rfl rfl fun _ h0 => h0
  | leave w hw hopen hflag =>
    refine workersOk_update h.workers ⟨hlt w hw, ?_, ?_⟩ rfl rfl fun _ h0 => h0
    · change s.pool.shutdown ≠ none
      rcases hflag with hk | ⟨hk, -⟩ <;> simp [hk]
    · intro hk
      change s.pool.shutdown = some .graceful at hk
      rcases hflag with hi | ⟨-, h0⟩
      · rw [hi] at hk
        cases hk
      · exact h0
  | take w hw hopen hc hflag hqueue =>
    exact workersOk_update h.workers (hlt w hw) rfl rfl fun _ h0 => absurd h0 hc
  | call w task hw =>
    exact workersOk_update h.workers ((h.workers w).lt (by simp [hw])) rfl rfl fun _ h0 => h0
  | finish w task hw =>
    exact workersOk_update h.workers ((h.workers w).lt (by simp [hw])) rfl rfl fun _ h0 => h0
  | spurious w hw =>
    exact workersOk_update h.workers ((h.workers w).lt (by simp [hw])) rfl rfl fun _ h0 => h0
  | _ => exact h.workers

/-- Workers that have not been started or have exited stay where they are, once `threadpool_create`
has left its loop. -/
lemma Moves.out_stable {s s' : State φ ω n} {a : Action φ ω n} {es : List (Event φ ω n)}
    (hm : Moves s a s' es) (hcreate : s.create ≠ .starting) {w : Fin n}
    (hw : (s.worker w).alive = false) : s'.worker w = s.worker w := by
  have hother : ∀ (u : Fin n) (pc : WorkerPc φ ω), (s.worker u).alive = true →
      Function.update s.worker u pc w = s.worker w := by
    intro u pc hu
    apply Function.update_of_ne
    rintro rfl
    rw [hw] at hu
    cases hu
  cases hm with
  | spawn i hc hi => exact absurd hc hcreate
  | added f argument wakee worker hopen hc hroom hflag hqueue hsignal =>
    cases hsignal with
    | nobody => rfl
    | wakes u hu => exact hother u _ (by simp [hu, WorkerPc.alive])
  | shutdown flags hopen hc hflag =>
    change (s.worker w).wake = s.worker w
    cases hpc : s.worker w <;> simp_all [WorkerPc.wake, WorkerPc.alive]
  | wait u hu => exact hother u _ (wantsLock_alive hu)
  | leave u hu => exact hother u _ (wantsLock_alive hu)
  | take u hu => exact hother u _ (wantsLock_alive hu)
  | call u task hu => exact hother u _ (by simp [hu, WorkerPc.alive])
  | finish u task hu => exact hother u _ (by simp [hu, WorkerPc.alive])
  | spurious u hu => exact hother u _ (by simp [hu, WorkerPc.alive])
  | _ => rfl

lemma alive_signalled {worker worker' : Fin n → WorkerPc φ ω} (hs : Signalled worker worker') :
    countWith (fun pc => pc.alive = true) worker' = countWith (fun pc => pc.alive = true) worker := by
  cases hs with
  | nobody => rfl
  | wakes u hu => exact countWith_update_same _ _ _ _ (by simp [hu, WorkerPc.alive])

lemma Inv.started_moves {s s' : State φ ω n} {a : Action φ ω n} {es : List (Event φ ω n)}
    (h : Inv s) (hm : Moves s a s' es) :
    s'.pool.started = countWith (fun pc => pc.alive = true) s'.worker := by
  have hstarted := h.started
  have hkeep : ∀ (w : Fin n) (pc : WorkerPc φ ω), (s.worker w).alive = true → pc.alive = true →
      s.pool.started =
        countWith (fun pc => pc.alive = true) (Function.update s.worker w pc) := by
    intro w pc hw hpc
    rw [countWith_update_same _ _ _ _ (by simp [hw, hpc])]
    exact hstarted
  cases hm with
  | spawn i hc hi =>
    have hunborn : s.worker i = .unborn := by
      by_contra hne
      have hlt := (h.workers i).lt hne
      omega
    have hcount := countWith_update_enter (fun pc : WorkerPc φ ω => pc.alive = true) s.worker i
      .locking (by simp [hunborn, WorkerPc.alive]) rfl
    change s.pool.started + 1 = _
    rw [hcount, hstarted]
    rfl
  | added f argument wakee worker hopen hcreate hroom hflag hqueue hsignal =>
    change s.pool.started = _
    rw [alive_signalled hsignal]
    exact hstarted
  | shutdown flags hopen hcreate hflag =>
    change s.pool.started = _
    rw [hstarted]
    unfold countWith
    simp only [alive_wake]
  | wait w hw => exact hkeep w _ (wantsLock_alive hw) rfl
  | leave w hw hopen hflag =>
    have hcount := countWith_update_leave (fun pc : WorkerPc φ ω => pc.alive = true) s.worker w
      .exited (wantsLock_alive hw) (by simp [WorkerPc.alive])
    change s.pool.started - 1 =
      countWith (fun pc => pc.alive = true) (Function.update s.worker w .exited)
    omega
  | take w hw => exact hkeep w _ (wantsLock_alive hw) rfl
  | call w task hw => exact hkeep w _ (by simp [hw, WorkerPc.alive]) rfl
  | finish w task hw => exact hkeep w _ (by simp [hw, WorkerPc.alive]) rfl
  | spurious w hw => exact hkeep w _ (by simp [hw, WorkerPc.alive]) rfl
  | _ => exact hstarted

/-- The counter `started` is zero exactly when no worker runs. -/
lemma Inv.started_pos_iff {s : State φ ω n} (h : Inv s) : 0 < s.pool.started ↔ ¬s.AllOut := by
  rw [h.started, Int.natCast_pos, countWith_pos_iff]
  unfold State.AllOut
  simp

lemma Inv.create_moves {s s' : State φ ω n} {a : Action φ ω n} {es : List (Event φ ω n)}
    (h : Inv s) (hm : Moves s a s' es) : CreateOk s' s'.create := by
  have hcreate := h.create
  have hsame : ∀ t : State φ ω n, t.pool.shutdown = s.pool.shutdown →
      t.pool.threadCount = s.pool.threadCount → CreateOk t s.create := by
    intro t hflag hthreads
    cases hc : s.create with
    | starting =>
      rw [hc] at hcreate
      exact ⟨hflag.trans hcreate.1, hthreads.trans_lt hcreate.2⟩
    | returned =>
      rw [hc] at hcreate
      exact hthreads.trans hcreate
    | failed =>
      rw [hc] at hcreate
      exact ⟨hthreads.trans_lt hcreate.1, by rw [hflag]; exact hcreate.2⟩
  cases hm with
  | spawn i hc hi =>
    rw [hc] at hcreate
    by_cases hlast : s.pool.threadCount + 1 = n
    · rw [if_pos hlast]
      exact hlast
    · rw [if_neg hlast]
      have hlt := hcreate.2
      exact ⟨hcreate.1, by change s.pool.threadCount + 1 < n; omega⟩
  | spawnFails hc hlt =>
    rw [hc] at hcreate
    exact ⟨hlt, by simp [hcreate.1]⟩
  | shutdown flags hopen hc hflag =>
    rcases hc with hc | ⟨hc, rfl⟩
    · rw [hc] at hcreate
      change CreateOk _ s.create
      rw [hc]
      exact hcreate
    · rw [hc] at hcreate
      change CreateOk _ s.create
      rw [hc]
      exact ⟨hcreate.1, by simp [shutdownOf]⟩
  | _ => exact hsame _ rfl rfl

lemma Inv.create_ne_starting {s : State φ ω n} (h : Inv s) (hflag : s.pool.shutdown ≠ none) :
    s.create ≠ .starting := by
  intro hc
  have hcreate := h.create
  rw [hc] at hcreate
  exact hflag hcreate.1

/-- Once it is set, the flag keeps its value. -/
lemma Moves.flag_stable {s s' : State φ ω n} {a : Action φ ω n} {es : List (Event φ ω n)}
    (hm : Moves s a s' es) (hflag : s.pool.shutdown ≠ none) :
    s'.pool.shutdown = s.pool.shutdown := by
  cases hm with
  | shutdown flags hopen hcreate hnone => exact absurd hnone hflag
  | _ => rfl

lemma Moves.allOut_stable {s s' : State φ ω n} {a : Action φ ω n} {es : List (Event φ ω n)}
    (hm : Moves s a s' es) (hcreate : s.create ≠ .starting) (hout : s.AllOut) : s'.AllOut := by
  intro w
  rw [hm.out_stable hcreate (hout w)]
  exact hout w

/-- When the joins are done every worker has exited. -/
lemma allOut_of_joined {s : State φ ω n} {i : ℕ} (h : Inv s) (hi : s.pool.threadCount ≤ i)
    (hw : ∀ w : Fin n, w.val < i → s.worker w = .exited) : s.AllOut := by
  intro w
  cases hpc : s.worker w with
  | unborn => rfl
  | exited => rfl
  | _ =>
    have hlt := (h.workers w).lt (by simp [hpc])
    rw [hw w (hlt.trans_le hi)] at hpc
    cases hpc

/-- The steps that the call which destroys the pool does not take, after the flag is set. -/
lemma Inv.destroy_kept {s s' : State φ ω n} {a : Action φ ω n} {es : List (Event φ ω n)}
    (h : Inv s) (hm : Moves s a s' es) (hd : s'.destroy = s.destroy)
    (hflag : s.pool.shutdown ≠ none) (hthreads : s'.pool.threadCount = s.pool.threadCount)
    (hqueue : s'.queueFreed = s.queueFreed) (hfreed : s'.freed = s.freed) :
    DestroyOk s' s'.destroy := by
  have hcreate := h.create_ne_starting hflag
  have hflag' : s'.pool.shutdown ≠ none := by
    rw [hm.flag_stable hflag]
    exact hflag
  have hok := h.destroy
  rw [hd]
  cases hpc : s.destroy with
  | idle =>
    rw [hpc] at hok
    exact absurd hok.1 hflag
  | joining i =>
    rw [hpc] at hok
    refine ⟨hflag', hok.2.1.trans_eq hthreads.symm, fun w hw => ?_, hqueue.trans hok.2.2.2.1,
      hfreed.trans hok.2.2.2.2⟩
    have hexit := hok.2.2.1 w hw
    rw [hm.out_stable hcreate (by simp [hexit, WorkerPc.alive])]
    exact hexit
  | freeing =>
    rw [hpc] at hok
    exact ⟨hflag', hm.allOut_stable hcreate hok.2.1, hfreed.trans hok.2.2⟩
  | leaving =>
    rw [hpc] at hok
    exact ⟨hflag', hm.allOut_stable hcreate hok.2.1, hfreed.trans hok.2.2⟩
  | returned =>
    rw [hpc] at hok
    exact ⟨hflag', hm.allOut_stable hcreate hok.2.1, hfreed.trans hok.2.2⟩

lemma Inv.idle_of_flag {s : State φ ω n} (h : Inv s) (hflag : s.pool.shutdown = none) :
    s.destroy = .idle ∧ s.queueFreed = false ∧ s.freed = false ∧ s.locked = false := by
  have hok := h.destroy
  cases hd : s.destroy with
  | idle =>
    rw [hd] at hok
    exact ⟨rfl, hok.2⟩
  | joining i => rw [hd] at hok; exact absurd hflag hok.1
  | freeing => rw [hd] at hok; exact absurd hflag hok.1
  | leaving => rw [hd] at hok; exact absurd hflag hok.1
  | returned => rw [hd] at hok; exact absurd hflag hok.1

lemma Inv.flag_of_destroy {s : State φ ω n} (h : Inv s) (hd : s.destroy ≠ .idle) :
    s.pool.shutdown ≠ none :=
  fun hflag => hd (h.idle_of_flag hflag).1

lemma Inv.destroy_moves {s s' : State φ ω n} {a : Action φ ω n} {es : List (Event φ ω n)}
    (h : Inv s) (hm : Moves s a s' es) : DestroyOk s' s'.destroy := by
  have hok := h.destroy
  have hkept := h.destroy_kept hm
  -- before the flag is set nothing has been freed and nobody keeps the lock
  have hidle : s.pool.shutdown = none → s'.destroy = s.destroy → s'.pool.shutdown = none →
      s'.queueFreed = s.queueFreed → s'.freed = s.freed → s'.locked = s.locked →
      DestroyOk s' s'.destroy := by
    intro hflag hd hflag' hqueue hfreed hlock
    obtain ⟨hid, hq, hf, hl⟩ := h.idle_of_flag hflag
    rw [hd, hid]
    exact ⟨hflag', hqueue.trans hq, hfreed.trans hf, hlock.trans hl⟩
  -- a step that changes neither the flag nor what `threadpool_destroy` has done
  have hsame : s'.destroy = s.destroy → s'.pool.shutdown = s.pool.shutdown →
      s'.pool.threadCount = s.pool.threadCount → s'.queueFreed = s.queueFreed →
      s'.freed = s.freed → s'.locked = s.locked → DestroyOk s' s'.destroy := by
    intro hd hflag hthreads hqueue hfreed hlock
    by_cases hnone : s.pool.shutdown = none
    · exact hidle hnone hd (hflag.trans hnone) hqueue hfreed hlock
    · exact hkept hd hnone hthreads hqueue hfreed
  cases hm with
  | spawn i hc hi =>
    have hcreate := h.create
    rw [hc] at hcreate
    exact hidle hcreate.1 rfl hcreate.1 rfl rfl rfl
  | again flags hopen hflag => exact hkept rfl hflag rfl rfl rfl
  | shutdown flags hopen hcreate hflag =>
    obtain ⟨-, hq, hf, -⟩ := h.idle_of_flag hflag
    exact ⟨by simp, Nat.zero_le _, fun w hw => absurd hw (Nat.not_lt_zero _), hq, hf⟩
  | joined i hd hi hw =>
    rw [hd] at hok
    refine ⟨hok.1, hi, fun u hu => ?_, hok.2.2.2⟩
    rcases Nat.lt_succ_iff_lt_or_eq.mp hu with hlt | heq
    · exact hok.2.2.1 u hlt
    · exact hw u heq
  | leaked i hd hi hs =>
    rw [hd] at hok
    exact absurd (allOut_of_joined h hi hok.2.2.1) (h.started_pos_iff.mp hs)
  | freeArrays i hd hi =>
    rw [hd] at hok
    have hout : s.AllOut := allOut_of_joined h hi hok.2.2.1
    exact ⟨hok.1, hout, hok.2.2.2.2⟩
  | freePool hd hlock =>
    rw [hd] at hok
    exact ⟨hok.1, hok.2.1, rfl⟩
  | returns hd =>
    rw [hd] at hok
    exact hok
  | _ => exact hsame rfl rfl rfl rfl rfl rfl

theorem Inv.moves {s s' : State φ ω n} {a : Action φ ω n} {es : List (Event φ ω n)}
    (h : Inv s) (hm : Moves s a s' es) : Inv s' :=
  ⟨h.workers_moves hm, h.started_moves hm, h.create_moves hm, h.destroy_moves hm⟩

lemma Inv.step {s s' : State φ ω n} {a : Action φ ω n} {es : List (Event φ ω n)}
    (h : Inv s) (hs : step s a = some (s', es)) : Inv s' :=
  h.moves (moves_of_step hs)

theorem Inv.run {s t : State φ ω n} {as : List (Action φ ω n)} {es : List (Event φ ω n)}
    (h : Inv s) (hrun : Library.run ThreadPool.step s as = some (t, es)) : Inv t :=
  run_invariant_state ThreadPool.step Inv (fun _ _ _ _ hs ha => hs.step ha) h hrun

end CodeC.ThreadPool
