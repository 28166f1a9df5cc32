import CodeC.ThreadPool
import CodeC.Library.Count

/-!
# The steps of the thread pool

What each step does, with its guard, and the invariant of the pool: which workers exist, what the
flag says about them, and how far the call that destroys the pool has come.
-/

namespace CodeC.ThreadPool
open Library

variable {φ ω : Type} {n : ℕ}

/-- What a signal can do to the workers. -/
inductive Signalled (worker : Fin n → WorkerPc φ ω) : (Fin n → WorkerPc φ ω) → Prop
  | nobody (h : ∀ u, worker u ≠ .waiting) : Signalled worker worker
  | wakes (u : Fin n) (h : worker u = .waiting) :
    Signalled worker (Function.update worker u .woken)

/-- The caller may take the lock of a pool that has not been freed. -/
def State.Open (s : State φ ω n) : Prop := s.freed = false ∧ s.locked = false

/-- The steps of `step` by what they do. -/
inductive Moves (s : State φ ω n) : Action φ ω n → State φ ω n → List (Event φ ω n) → Prop
  | spawn (i : Fin n) (hc : s.create = .starting) (hi : i.val = s.pool.threadCount) :
    Moves s .spawn
      { s with
        pool := { s.pool with
          threadCount := s.pool.threadCount + 1
          started := s.pool.started + 1 }
        worker := Function.update s.worker i .locking
        create := if s.pool.threadCount + 1 = n then .returned else .starting } []
  | spawnFails (hc : s.create = .starting) (hlt : s.pool.threadCount < n) :
    Moves s .spawnFails { s with create := .failed } []
  | invalid (argument : ω) (wakee : Option (Fin n)) :
    Moves s (.add none argument wakee) s [.refused .invalid]
  | refused (f : φ) (argument : ω) (wakee : Option (Fin n)) (e : Error) (hopen : s.Open) :
    Moves s (.add (some f) argument wakee) s [.refused e]
  | added (f : φ) (argument : ω) (wakee : Option (Fin n)) (worker : Fin n → WorkerPc φ ω)
      (hopen : s.Open) (hcreate : s.create = .returned) (hroom : s.pool.count ≠ s.pool.queueSize)
      (hflag : s.pool.shutdown = none) (hqueue : s.queueFreed = false)
      (hsignal : Signalled s.worker worker) :
    Moves s (.add (some f) argument wakee)
      { s with
        pool := { s.pool with
          queue := Function.update s.pool.queue s.pool.tail ⟨f, argument⟩
          tail := (s.pool.tail + 1) % s.pool.queueSize
          count := s.pool.count + 1 }
        worker := worker } [.added ⟨f, argument⟩]
  | addFault (f : φ) (argument : ω) (wakee : Option (Fin n))
      (h : s.freed = true ∨ (s.pool.shutdown = none ∧ s.queueFreed = true)) :
    Moves s (.add (some f) argument wakee) s [.fault none]
  | destroyFault (flags : BitVec 32) (h : s.freed = true) :
    Moves s (.destroy flags) s [.fault none]
  | again (flags : BitVec 32) (hopen : s.Open) (hflag : s.pool.shutdown ≠ none) :
    Moves s (.destroy flags) { s with locked := true } [.destroyed (some .shutdown)]
  | shutdown (flags : BitVec 32) (hopen : s.Open)
      (hcreate : s.create = .returned ∨ (s.create = .failed ∧ flags = 0#32))
      (hflag : s.pool.shutdown = none) :
    Moves s (.destroy flags)
      { s with
        pool := { s.pool with shutdown := some (shutdownOf flags) }
        worker := fun w => (s.worker w).wake
        destroy := .joining 0 } [.shuttingDown (shutdownOf flags)]
  | joined (i : ℕ) (hd : s.destroy = .joining i) (hi : i < s.pool.threadCount)
      (hw : ∀ w : Fin n, w.val = i → s.worker w = .exited) :
    Moves s .join { s with destroy := .joining (i + 1) } []
  | leaked (i : ℕ) (hd : s.destroy = .joining i) (hi : s.pool.threadCount ≤ i)
      (hs : 0 < s.pool.started) :
    Moves s .join { s with destroy := .returned } [.destroyed none]
  | freeArrays (i : ℕ) (hd : s.destroy = .joining i) (hi : s.pool.threadCount ≤ i) :
    Moves s .join { s with queueFreed := true, destroy := .freeing } []
  | freePool (hd : s.destroy = .freeing) (hlock : s.locked = false) :
    Moves s .join { s with freed := true, destroy := .leaving } [.freed]
  | returns (hd : s.destroy = .leaving) :
    Moves s .join { s with destroy := .returned } [.destroyed none]
  | workFault (w : Fin n) (hw : (s.worker w).wantsLock = true)
      (h : s.freed = true ∨ s.queueFreed = true) : Moves s (.work w) s [.fault (some w)]
  | wait (w : Fin n) (hw : (s.worker w).wantsLock = true) (hopen : s.Open) (hc : s.pool.count = 0)
      (hflag : s.pool.shutdown = none) : Moves s (.work w) (s.setWorker w .waiting) []
  | leave (w : Fin n) (hw : (s.worker w).wantsLock = true) (hopen : s.Open)
      (hflag : s.pool.shutdown = some .immediate ∨
        (s.pool.shutdown = some .graceful ∧ s.pool.count = 0)) :
    Moves s (.work w)
      ({ s with pool := { s.pool with started := s.pool.started - 1 } }.setWorker w .exited)
      [.exited w]
  | take (w : Fin n) (hw : (s.worker w).wantsLock = true) (hopen : s.Open) (hc : s.pool.count ≠ 0)
      (hflag : s.pool.shutdown ≠ some .immediate) (hqueue : s.queueFreed = false) :
    Moves s (.work w)
      ({ s with pool := { s.pool with
        head := (s.pool.head + 1) % s.pool.queueSize
        count := s.pool.count - 1 } }.setWorker w (.taken (s.pool.queue s.pool.head)))
      [.took w (s.pool.queue s.pool.head)]
  | call (w : Fin n) (task : Task φ ω) (hw : s.worker w = .taken task) :
    Moves s (.call w) (s.setWorker w (.running task)) [.started w task]
  | finish (w : Fin n) (task : Task φ ω) (hw : s.worker w = .running task) :
    Moves s (.finish w) (s.setWorker w .locking) [.finished w task]
  | spurious (w : Fin n) (hw : s.worker w = .waiting) :
    Moves s (.spurious w) (s.setWorker w .woken) []

lemma isWaiting_iff {pc : WorkerPc φ ω} : pc.isWaiting = true ↔ pc = .waiting := by
  cases pc <;> simp [WorkerPc.isWaiting]

lemma isExited_iff {pc : WorkerPc φ ω} : pc.isExited = true ↔ pc = .exited := by
  cases pc <;> simp [WorkerPc.isExited]

lemma signalled_of_signal {s t : State φ ω n} {wakee : Option (Fin n)}
    (h : signal s wakee = some t) : ∃ worker, Signalled s.worker worker ∧
      t = { s with worker := worker } := by
  cases wakee with
  | none =>
    simp only [signal] at h
    by_cases hex : ∃ u, (s.worker u).isWaiting
    · simp [hex] at h
    · rw [if_neg hex] at h
      cases h
      exact ⟨s.worker, .nobody fun u hu => hex ⟨u, isWaiting_iff.mpr hu⟩, rfl⟩
  | some u =>
    simp only [signal] at h
    by_cases hu : (s.worker u).isWaiting
    · rw [if_pos hu] at h
      cases h
      exact ⟨_, .wakes u (isWaiting_iff.mp hu), rfl⟩
    · simp [hu] at h

lemma moves_spawn {s s' : State φ ω n} {es : List (Event φ ω n)} (h : spawn s = some (s', es)) :
    Moves s .spawn s' es := by
  unfold spawn at h
  by_cases hc : s.create = .starting ∧ s.pool.threadCount < n
  · rw [dif_pos hc] at h
    cases h
    exact .spawn ⟨s.pool.threadCount, hc.2⟩ hc.1 rfl
  · rw [dif_neg hc] at h
    cases h

lemma moves_spawnFails {s s' : State φ ω n} {es : List (Event φ ω n)}
    (h : spawnFails s = some (s', es)) : Moves s .spawnFails s' es := by
  unfold spawnFails at h
  by_cases hc : s.create = .starting ∧ s.pool.threadCount < n
  · rw [if_pos hc] at h
    cases h
    exact .spawnFails hc.1 hc.2
  · rw [if_neg hc] at h
    cases h

/-- The critical section of `threadpool_add` refuses, or stores the task behind the queued ones. -/
lemma threadpoolAdd_ok {p p' : Pool φ ω} {f : φ} {argument : ω}
    (h : threadpoolAdd p f argument = .ok p') :
    p.count ≠ p.queueSize ∧ p.shutdown = none ∧
      p' = { p with
        queue := Function.update p.queue p.tail ⟨f, argument⟩
        tail := (p.tail + 1) % p.queueSize
        count := p.count + 1 } := by
  unfold threadpoolAdd at h
  by_cases hfull : p.count = p.queueSize
  · simp [hfull] at h
  · by_cases hflag : p.shutdown.isSome
    · simp [hfull, hflag] at h
    · simp only [hfull, hflag, if_false] at h
      cases h
      exact ⟨hfull, by simpa using hflag, rfl⟩

lemma moves_add {s s' : State φ ω n} {function : Option φ} {argument : ω}
    {wakee : Option (Fin n)} {es : List (Event φ ω n)}
    (h : add s function argument wakee = some (s', es)) :
    Moves s (.add function argument wakee) s' es := by
  unfold add at h
  by_cases hcreate : s.create = .returned
  · rw [if_pos hcreate] at h
    cases function with
    | none =>
      cases h
      exact .invalid argument wakee
    | some f =>
      dsimp only at h
      by_cases hfreed : s.freed = true
      · rw [if_pos hfreed] at h
        cases h
        exact .addFault f argument wakee (Or.inl hfreed)
      rw [if_neg hfreed] at h
      by_cases hlock : s.locked = true
      · simp [hlock] at h
      rw [if_neg hlock] at h
      have hopen : s.Open := ⟨eq_false_of_ne_true hfreed, eq_false_of_ne_true hlock⟩
      cases hadd : threadpoolAdd s.pool f argument with
      | error e =>
        rw [hadd] at h
        cases h
        exact .refused f argument wakee e hopen
      | ok p =>
        obtain ⟨hroom, hflag, rfl⟩ := threadpoolAdd_ok hadd
        rw [hadd] at h
        dsimp only at h
        by_cases hqueue : s.queueFreed = true
        · rw [if_pos hqueue] at h
          cases h
          exact .addFault f argument wakee (Or.inr ⟨hflag, hqueue⟩)
        · rw [if_neg hqueue] at h
          obtain ⟨t, ht, hs'⟩ := Option.map_eq_some_iff.mp h
          obtain ⟨worker, hsignal, rfl⟩ := signalled_of_signal ht
          cases hs'
          exact .added f argument wakee worker hopen hcreate hroom hflag
            (eq_false_of_ne_true hqueue) hsignal
  · rw [if_neg hcreate] at h
    cases h

lemma moves_destroy {s s' : State φ ω n} {flags : BitVec 32} {es : List (Event φ ω n)}
    (h : destroy s flags = some (s', es)) : Moves s (.destroy flags) s' es := by
  unfold destroy at h
  by_cases hcreate : s.create = .returned ∨
      (s.create = .failed ∧ flags = 0#32 ∧ s.destroy = .idle)
  · rw [if_pos hcreate] at h
    by_cases hfreed : s.freed = true
    · rw [if_pos hfreed] at h
      cases h
      exact .destroyFault flags hfreed
    rw [if_neg hfreed] at h
    by_cases hlock : s.locked = true
    · simp [hlock] at h
    rw [if_neg hlock] at h
    have hopen : s.Open := ⟨eq_false_of_ne_true hfreed, eq_false_of_ne_true hlock⟩
    unfold threadpoolDestroy at h
    by_cases hflag : s.pool.shutdown = none
    · rw [if_neg (by simp [hflag])] at h
      cases h
      exact .shutdown flags hopen (hcreate.imp_right fun hc => ⟨hc.1, hc.2.1⟩) hflag
    · have hsome : s.pool.shutdown.isSome = true := Option.isSome_iff_ne_none.mpr hflag
      rw [if_pos hsome] at h
      cases h
      exact .again flags hopen hflag
  · rw [if_neg hcreate] at h
    cases h

lemma moves_join {s s' : State φ ω n} {es : List (Event φ ω n)} (h : join s = some (s', es)) :
    Moves s .join s' es := by
  unfold join at h
  cases hd : s.destroy with
  | idle => simp [hd] at h
  | returned => simp [hd] at h
  | freeing =>
    simp only [hd] at h
    by_cases hlock : s.locked = true
    · simp [hlock] at h
    · rw [if_neg hlock] at h
      cases h
      exact .freePool hd (eq_false_of_ne_true hlock)
  | leaving =>
    simp only [hd] at h
    cases h
    exact .returns hd
  | joining i =>
    simp only [hd] at h
    by_cases hi : i < s.pool.threadCount
    · rw [if_pos hi] at h
      by_cases hw : ∀ w : Fin n, w.val = i → (s.worker w).isExited
      · rw [if_pos hw] at h
        cases h
        exact .joined i hd hi fun w hwi => isExited_iff.mp (hw w hwi)
      · rw [if_neg hw] at h
        cases h
    · rw [if_neg hi] at h
      by_cases hs : 0 < s.pool.started
      · rw [if_pos hs] at h
        cases h
        exact .leaked i hd (Nat.le_of_not_lt hi) hs
      · rw [if_neg hs] at h
        cases h
        exact .freeArrays i hd (Nat.le_of_not_lt hi)

/-- The three ways a critical section of a worker ends. -/
lemma threadpoolThread_cases (p : Pool φ ω) :
    (p.count = 0 ∧ p.shutdown = none ∧ threadpoolThread p = .wait) ∨
    ((p.shutdown = some .immediate ∨ (p.shutdown = some .graceful ∧ p.count = 0)) ∧
      threadpoolThread p = .leave { p with started := p.started - 1 }) ∨
    (p.count ≠ 0 ∧ p.shutdown ≠ some .immediate ∧
      threadpoolThread p =
        .take { p with head := (p.head + 1) % p.queueSize, count := p.count - 1 }
          (p.queue p.head)) := by
  unfold threadpoolThread
  by_cases hwait : p.count = 0 ∧ p.shutdown = none
  · exact Or.inl ⟨hwait.1, hwait.2, if_pos hwait⟩
  · rw [if_neg hwait]
    by_cases hleave : p.shutdown = some .immediate ∨ (p.shutdown = some .graceful ∧ p.count = 0)
    · exact Or.inr (Or.inl ⟨hleave, if_pos hleave⟩)
    · refine Or.inr (Or.inr ⟨?_, fun h => hleave (Or.inl h), if_neg hleave⟩)
      intro hc
      cases hk : p.shutdown with
      | none => exact hwait ⟨hc, hk⟩
      | some k =>
        cases k with
        | immediate => exact hleave (Or.inl hk)
        | graceful => exact hleave (Or.inr ⟨hk, hc⟩)

lemma moves_work {s s' : State φ ω n} {w : Fin n} {es : List (Event φ ω n)}
    (h : work s w = some (s', es)) : Moves s (.work w) s' es := by
  unfold work at h
  by_cases hw : (s.worker w).wantsLock = true
  · rw [if_pos hw] at h
    by_cases hfreed : s.freed = true
    · rw [if_pos hfreed] at h
      cases h
      exact .workFault w hw (Or.inl hfreed)
    rw [if_neg hfreed] at h
    by_cases hlock : s.locked = true
    · simp [hlock] at h
    rw [if_neg hlock] at h
    have hopen : s.Open := ⟨eq_false_of_ne_true hfreed, eq_false_of_ne_true hlock⟩
    obtain ⟨hc, hflag, hturn⟩ | ⟨hflag, hturn⟩ | ⟨hc, hflag, hturn⟩ :=
      threadpoolThread_cases s.pool
    · rw [hturn] at h
      cases h
      exact .wait w hw hopen hc hflag
    · rw [hturn] at h
      cases h
      exact .leave w hw hopen hflag
    · rw [hturn] at h
      dsimp only at h
      by_cases hqueue : s.queueFreed = true
      · rw [if_pos hqueue] at h
        cases h
        exact .workFault w hw (Or.inr hqueue)
      · rw [if_neg hqueue] at h
        cases h
        exact .take w hw hopen hc hflag (eq_false_of_ne_true hqueue)
  · rw [if_neg hw] at h
    cases h

theorem moves_of_step {s s' : State φ ω n} {a : Action φ ω n} {es : List (Event φ ω n)}
    (h : step s a = some (s', es)) : Moves s a s' es := by
  cases a with
  | spawn => exact moves_spawn h
  | spawnFails => exact moves_spawnFails h
  | add function argument wakee => exact moves_add h
  | destroy flags => exact moves_destroy h
  | join => exact moves_join h
  | work w => exact moves_work h
  | call w =>
    simp only [step, call] at h
    split at h
    · case h_1 task hw =>
      cases h
      exact .call w task hw
    · case h_2 => cases h
  | finish w =>
    simp only [step, finish] at h
    split at h
    · case h_1 task hw =>
      cases h
      exact .finish w task hw
    · case h_2 => cases h
  | spurious w =>
    simp only [step, spurious] at h
    by_cases hw : (s.worker w).isWaiting = true
    · rw [if_pos hw] at h
      cases h
      exact .spurious w (isWaiting_iff.mp hw)
    · rw [if_neg hw] at h
      cases h

end CodeC.ThreadPool
