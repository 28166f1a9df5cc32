import CodeC.Proofs.ThreadPoolInvariant
import CodeC.Library.CountedRing
import Mathlib.Algebra.BigOperators.Group.Multiset.Basic
import Mathlib.Algebra.Order.Group.Multiset
import Mathlib.Algebra.BigOperators.Group.Finset.Piecewise

/-!
# What happens to the tasks of a thread pool

Tasks are taken from the queue in the order in which they were accepted, each at most once, and the
worker that takes a task starts and finishes it. A graceful shutdown runs every accepted task before it
returns, after an immediate one none is taken, and until the flag is set no wake-up is lost.
-/

namespace CodeC.ThreadPool
open Library

variable {φ ω : Type} {n : ℕ}

/-- The accepted tasks, in the order of their acceptance -/
def addedTasks (es : List (Event φ ω n)) : List (Task φ ω) :=
  es.filterMap fun e => match e with
    | .added task => some task
    | _ => none

def Event.taking : Event φ ω n → Option (Fin n × Task φ ω)
  | .took w task => some (w, task)
  | _ => none

def Event.starting : Event φ ω n → Option (Fin n × Task φ ω)
  | .started w task => some (w, task)
  | _ => none

def Event.finishing : Event φ ω n → Option (Fin n × Task φ ω)
  | .finished w task => some (w, task)
  | _ => none

/-- The tasks of the events of one kind, in their order -/
def tasksOf (kind : Event φ ω n → Option (Fin n × Task φ ω)) (es : List (Event φ ω n)) :
    List (Task φ ω) :=
  (es.filterMap kind).map Prod.snd

/-- Those of worker `w` -/
def tasksBy (kind : Event φ ω n → Option (Fin n × Task φ ω)) (w : Fin n)
    (es : List (Event φ ω n)) : List (Task φ ω) :=
  ((es.filterMap kind).filter fun p => p.1 = w).map Prod.snd

/-- The tasks taken from the queue, in the order in which they were taken -/
def takenTasks (es : List (Event φ ω n)) : List (Task φ ω) := tasksOf Event.taking es

/-- The tasks that have been called, in the order of the calls -/
def startedTasks (es : List (Event φ ω n)) : List (Task φ ω) := tasksOf Event.starting es

def takenBy (w : Fin n) (es : List (Event φ ω n)) : List (Task φ ω) := tasksBy Event.taking w es

def startedBy (w : Fin n) (es : List (Event φ ω n)) : List (Task φ ω) := tasksBy Event.starting w es

def finishedBy (w : Fin n) (es : List (Event φ ω n)) : List (Task φ ω) := tasksBy Event.finishing w es

/-- The task that a worker has taken and not yet called -/
def WorkerPc.pending : WorkerPc φ ω → List (Task φ ω)
  | .taken task => [task]
  | _ => []

/-- The task that a worker executes -/
def WorkerPc.current : WorkerPc φ ω → List (Task φ ω)
  | .running task => [task]
  | _ => []

/-- The queue of the pool as a ring -/
def Pool.ring (p : Pool φ ω) : CountedRing (Task φ ω) :=
  ⟨p.queueSize, p.head, p.tail, p.count, p.queue⟩

section events

variable (kind : Event φ ω n → Option (Fin n × Task φ ω)) (es fs : List (Event φ ω n)) (w : Fin n)

lemma addedTasks_append : addedTasks (es ++ fs) = addedTasks es ++ addedTasks fs :=
  List.filterMap_append

lemma tasksOf_append : tasksOf kind (es ++ fs) = tasksOf kind es ++ tasksOf kind fs := by
  unfold tasksOf
  rw [List.filterMap_append, List.map_append]

lemma tasksBy_append : tasksBy kind w (es ++ fs) = tasksBy kind w es ++ tasksBy kind w fs := by
  unfold tasksBy
  rw [List.filterMap_append, List.filter_append, List.map_append]

lemma tasksBy_singleton {e : Event φ ω n} {u : Fin n} {task : Task φ ω}
    (h : kind e = some (u, task)) :
    tasksBy kind w [e] = if u = w then [task] else [] := by
  by_cases hu : u = w <;> simp [tasksBy, h, hu]

/-- The tasks of the workers together are all tasks. -/
lemma tasksOf_eq_sum :
    (tasksOf kind es : Multiset (Task φ ω)) = ∑ w, (tasksBy kind w es : Multiset (Task φ ω)) := by
  unfold tasksOf tasksBy
  generalize es.filterMap kind = l
  induction l with
  | nil => simp
  | cons p l ih =>
    have hp : ∀ w, ((((p :: l).filter fun q => q.1 = w).map Prod.snd : List (Task φ ω)) :
        Multiset (Task φ ω)) = (if p.1 = w then {p.2} else 0) +
          (((l.filter fun q => q.1 = w).map Prod.snd : List (Task φ ω)) : Multiset (Task φ ω)) := by
      intro w
      by_cases hw : p.1 = w <;> simp [hw]
    rw [Finset.sum_congr rfl fun w _ => hp w, Finset.sum_add_distrib, Finset.sum_ite_eq, ← ih]
    simp

/-- Two kinds of events that are about the same tasks for every worker are so altogether, perhaps in
another order. -/
lemma tasksOf_perm {kind kind' : Event φ ω n → Option (Fin n × Task φ ω)}
    {es : List (Event φ ω n)} (h : ∀ w, tasksBy kind w es = tasksBy kind' w es) :
    (tasksOf kind es).Perm (tasksOf kind' es) := by
  rw [← Multiset.coe_eq_coe, tasksOf_eq_sum, tasksOf_eq_sum]
  exact Finset.sum_congr rfl fun w _ => by rw [h w]

end events

/-- The queue holds the accepted tasks that have not been taken, the oldest first. -/
def QueueHistory (p : Pool φ ω) (es : List (Event φ ω n)) : Prop :=
  ∃ queued, p.ring.Holds queued ∧ addedTasks es = takenTasks es ++ queued

lemma QueueHistory.moves {s s' : State φ ω n} {a : Action φ ω n} {es fs : List (Event φ ω n)}
    (h : QueueHistory s.pool es) (hm : Moves s a s' fs) : QueueHistory s'.pool (es ++ fs) := by
  obtain ⟨queued, hholds, heq⟩ := h
  unfold QueueHistory takenTasks
  rw [addedTasks_append, tasksOf_append, heq]
  cases hm with
  | added f argument wakee worker hopen hcreate hroom hflag hqueue hsignal =>
    have hpush := hholds.push hroom (⟨f, argument⟩ : Task φ ω)
    refine ⟨_, hpush, ?_⟩
    simp [addedTasks, takenTasks, tasksOf, Event.taking]
  | take w hw hopen hc hflag hqueue =>
    cases queued with
    | nil => exact absurd hholds.count_eq hc
    | cons task rest =>
      obtain ⟨hdata, hpop⟩ := hholds.pop
      refine ⟨rest, hpop, ?_⟩
      change s.pool.queue s.pool.head = task at hdata
      rw [hdata]
      simp [addedTasks, takenTasks, tasksOf, Event.taking]
  | _ =>
    refine ⟨queued, hholds, ?_⟩
    simp [addedTasks, takenTasks, tasksOf, Event.taking]

/-- Every worker has started what it has taken, apart from the task it is about to call, and finished
what it has started, apart from the task it executes. -/
def WorkHistory (s : State φ ω n) (es : List (Event φ ω n)) : Prop :=
  ∀ w, takenBy w es = startedBy w es ++ (s.worker w).pending ∧
    startedBy w es = finishedBy w es ++ (s.worker w).current

/-- The worker has no task in its hands. -/
def WorkerPc.Free (pc : WorkerPc φ ω) : Prop := pc.pending = [] ∧ pc.current = []

lemma free_of_wantsLock {pc : WorkerPc φ ω} (h : pc.wantsLock = true) : pc.Free := by
  cases pc <;> simp_all [WorkerPc.wantsLock, WorkerPc.Free, WorkerPc.pending, WorkerPc.current]

/-- A step without an event about tasks, after which every worker has the task it had. -/
lemma WorkHistory.quiet {s s' : State φ ω n} {es fs : List (Event φ ω n)} (h : WorkHistory s es)
    (hquiet : ∀ w, takenBy w fs = [] ∧ startedBy w fs = [] ∧ finishedBy w fs = [])
    (hhands : ∀ w, (s'.worker w).pending = (s.worker w).pending ∧
      (s'.worker w).current = (s.worker w).current) : WorkHistory s' (es ++ fs) := by
  intro w
  obtain ⟨htaken, hstarted, hfinished⟩ := hquiet w
  unfold takenBy startedBy finishedBy at *
  rw [tasksBy_append, tasksBy_append, tasksBy_append, htaken, hstarted, hfinished, (hhands w).1,
    (hhands w).2, List.append_nil, List.append_nil, List.append_nil]
  exact h w

/-- A worker without a task moves to where it has none either. -/
lemma hands_update {worker : Fin n → WorkerPc φ ω} {w : Fin n} {pc : WorkerPc φ ω}
    (hold : (worker w).Free) (hnew : pc.Free) (u : Fin n) :
    (Function.update worker w pc u).pending = (worker u).pending ∧
      (Function.update worker w pc u).current = (worker u).current := by
  by_cases hu : u = w
  · subst hu
    rw [Function.update_self, hold.1, hold.2]
    exact hnew
  · rw [Function.update_of_ne hu]
    exact ⟨rfl, rfl⟩

/-- A step of worker `w` with one event, which is about a task of `w`. -/
lemma WorkHistory.of_worker {s s' : State φ ω n} {es : List (Event φ ω n)} {e : Event φ ω n}
    {w : Fin n} {pc : WorkerPc φ ω} (h : WorkHistory s es)
    (hworker : s'.worker = Function.update s.worker w pc)
    (hother : ∀ u, u ≠ w → takenBy u [e] = [] ∧ startedBy u [e] = [] ∧ finishedBy u [e] = [])
    (hw : takenBy w es ++ takenBy w [e] = startedBy w es ++ startedBy w [e] ++ pc.pending ∧
      startedBy w es ++ startedBy w [e] = finishedBy w es ++ finishedBy w [e] ++ pc.current) :
    WorkHistory s' (es ++ [e]) := by
  intro u
  rw [hworker]
  unfold takenBy startedBy finishedBy at *
  rw [tasksBy_append, tasksBy_append, tasksBy_append]
  by_cases hu : u = w
  · subst hu
    rw [Function.update_self]
    exact hw
  · obtain ⟨htaken, hstarted, hfinished⟩ := hother u hu
    rw [Function.update_of_ne hu, htaken, hstarted, hfinished, List.append_nil, List.append_nil,
      List.append_nil]
    exact h u

lemma WorkHistory.moves {s s' : State φ ω n} {a : Action φ ω n} {es fs : List (Event φ ω n)}
    (hinv : Inv s) (h : WorkHistory s es) (hm : Moves s a s' fs) : WorkHistory s' (es ++ fs) := by
  cases hm with
  | spawn i hc hi =>
    have hunborn : s.worker i = .unborn := by
      by_contra hne
      have hlt := (hinv.workers i).lt hne
      omega
    refine h.quiet (fun _ => ⟨rfl, rfl, rfl⟩) (hands_update ?_ ⟨rfl, rfl⟩)
    rw [hunborn]
    exact ⟨rfl, rfl⟩
  | added f argument wakee worker hopen hcreate hroom hflag hqueue hsignal =>
    refine h.quiet (fun _ => ⟨rfl, rfl, rfl⟩) ?_
    cases hsignal with
    | nobody => exact fun _ => ⟨rfl, rfl⟩
    | wakes u hu =>
      refine hands_update ?_ ⟨rfl, rfl⟩
      rw [hu]
      exact ⟨rfl, rfl⟩
  | shutdown flags hopen hcreate hflag =>
    refine h.quiet (fun _ => ⟨rfl, rfl, rfl⟩) fun w => ?_
    change (s.worker w).wake.pending = _ ∧ (s.worker w).wake.current = _
    cases s.worker w <;> exact ⟨rfl, rfl⟩
  | wait w hw =>
    exact h.quiet (fun _ => ⟨rfl, rfl, rfl⟩) (hands_update (free_of_wantsLock hw) ⟨rfl, rfl⟩)
  | leave w hw =>
    exact h.quiet (fun _ => ⟨rfl, rfl, rfl⟩) (hands_update (free_of_wantsLock hw) ⟨rfl, rfl⟩)
  | take w hw hopen hc hflag hqueue =>
    obtain ⟨htaken, hstarted⟩ := h w
    obtain ⟨hpending, hcurrent⟩ := free_of_wantsLock hw
    have hevent := fun u => tasksBy_singleton Event.taking u
      (e := .took w (s.pool.queue s.pool.head)) rfl
    refine h.of_worker rfl (fun u hu => ⟨(hevent u).trans (if_neg (Ne.symm hu)), rfl, rfl⟩) ⟨?_, ?_⟩
    · rw [htaken, hpending, show takenBy w [_] = _ from hevent w, if_pos rfl]
      simp [startedBy, tasksBy, Event.starting, WorkerPc.pending]
    · rw [hstarted, hcurrent]
      rfl
  | call w task hw =>
    obtain ⟨htaken, hstarted⟩ := h w
    rw [hw] at htaken hstarted
    have hevent := fun u => tasksBy_singleton Event.starting u (e := .started w task) rfl
    refine h.of_worker rfl (fun u hu => ⟨rfl, (hevent u).trans (if_neg (Ne.symm hu)), rfl⟩) ⟨?_, ?_⟩
    · rw [htaken, show startedBy w [_] = _ from hevent w, if_pos rfl]
      simp [takenBy, tasksBy, Event.taking, WorkerPc.pending]
    · rw [hstarted, show startedBy w [_] = _ from hevent w, if_pos rfl]
      simp [finishedBy, tasksBy, Event.finishing, WorkerPc.current]
  | finish w task hw =>
    obtain ⟨htaken, hstarted⟩ := h w
    rw [hw] at htaken hstarted
    have hevent := fun u => tasksBy_singleton Event.finishing u (e := .finished w task) rfl
    refine h.of_worker rfl (fun u hu => ⟨rfl, rfl, (hevent u).trans (if_neg (Ne.symm hu))⟩) ⟨?_, ?_⟩
    · rw [htaken]
      rfl
    · rw [hstarted, show finishedBy w [_] = _ from hevent w, if_pos rfl]
      simp [startedBy, tasksBy, Event.starting, WorkerPc.current]
  | spurious w hw =>
    refine h.quiet (fun _ => ⟨rfl, rfl, rfl⟩) (hands_update ?_ ⟨rfl, rfl⟩)
    rw [hw]
    exact ⟨rfl, rfl⟩
  | _ => exact h.quiet (fun _ => ⟨rfl, rfl, rfl⟩) fun _ => ⟨rfl, rfl⟩

/-- What the events say about the flag and about the call that destroys the pool. -/
def ShutdownHistory (s : State φ ω n) (es : List (Event φ ω n)) : Prop :=
  (∀ k, .shuttingDown k ∈ es → s.pool.shutdown = some k) ∧
    (.destroyed none ∈ es → s.destroy = .returned)

lemma ShutdownHistory.moves {s s' : State φ ω n} {a : Action φ ω n} {es fs : List (Event φ ω n)}
    (hinv : Inv s) (h : ShutdownHistory s es) (hm : Moves s a s' fs) :
    ShutdownHistory s' (es ++ fs) := by
  constructor
  · intro k hk
    rcases List.mem_append.mp hk with hk | hk
    · have hset := h.1 k hk
      rw [hm.flag_stable (by simp [hset])]
      exact hset
    · cases hm with
      | shutdown flags =>
        obtain rfl : k = shutdownOf flags := by simpa using hk
        rfl
      | _ => simp at hk
  · intro hd
    rcases List.mem_append.mp hd with hd | hd
    · have hret := h.2 hd
      cases hm with
      | shutdown flags hopen hcreate hflag =>
        exact absurd hflag (hinv.flag_of_destroy (by simp [hret]))
      | joined i hi => rw [hret] at hi; cases hi
      | leaked => rfl
      | freeArrays i hi => rw [hret] at hi; cases hi
      | freePool hi => rw [hret] at hi; cases hi
      | returns => rfl
      | _ => exact hret
    · cases hm with
      | leaked => rfl
      | returns => rfl
      | _ => simp at hd

structure History (s : State φ ω n) (es : List (Event φ ω n)) : Prop where
  inv : Inv s
  queue : QueueHistory s.pool es
  work : WorkHistory s es
  shutdown : ShutdownHistory s es

lemma history_create {threadCount queueSize : ℤ} {queue : ℕ → Task φ ω}
    {s : State φ ω threadCount.toNat} (h : threadpoolCreate threadCount queueSize queue = some s) :
    History s [] := by
  have hinv := inv_create h
  unfold threadpoolCreate at h
  split at h
  · cases h
  · case isFalse hargs =>
    cases h
    have hsize : 0 < queueSize.toNat := by omega
    refine ⟨hinv, ⟨[], CountedRing.holds_nil hsize rfl rfl rfl, rfl⟩, fun _ => ⟨rfl, rfl⟩, ?_⟩
    exact ⟨fun k hk => absurd hk List.not_mem_nil, fun hd => absurd hd List.not_mem_nil⟩

theorem History.run {s t : State φ ω n} {as : List (Action φ ω n)} {es : List (Event φ ω n)}
    (h : History s []) (hrun : Library.run step s as = some (t, es)) : History t es := by
  apply run_invariant_events step History ?_ h hrun
  intro u fs a u' gs hu hs
  have hm := moves_of_step hs
  exact ⟨hu.inv.moves hm, hu.queue.moves hm, hu.work.moves hu.inv hm, hu.shutdown.moves hu.inv hm⟩

/-- In every run, whatever the callers and the workers do: the tasks taken from the queue so far are the
first of the accepted ones, in the order of their acceptance, and the fields of the queue describe
exactly the others. Each worker starts the tasks it has taken and finishes those it has started, in
order; the one it is about to call and the one it executes are all that is open. -/
theorem tasks_are_taken_in_order (threadCount queueSize : ℤ) (queue : ℕ → Task φ ω)
    (s t : State φ ω threadCount.toNat) (as : List (Action φ ω threadCount.toNat))
    (es : List (Event φ ω threadCount.toNat))
    (hcreate : threadpoolCreate threadCount queueSize queue = some s)
    (hrun : run step s as = some (t, es)) :
    (∃ queued, t.pool.ring.Holds queued ∧ addedTasks es = takenTasks es ++ queued) ∧
      ∀ w, takenBy w es = startedBy w es ++ (t.worker w).pending ∧
        startedBy w es = finishedBy w es ++ (t.worker w).current := by
  have h := (history_create hcreate).run hrun
  exact ⟨h.queue, h.work⟩

def firstWorker : Fin (Int.toNat 2) := ⟨0, by decide⟩

def secondWorker : Fin (Int.toNat 2) := ⟨1, by decide⟩

/-- The two workers take a task each, and the one that took the later task starts first. -/
def twoTasksRun : List (Action ℕ ℕ (Int.toNat 2)) :=
  [.spawn, .spawn, .add (some 7) 1 none, .add (some 8) 2 none, .work firstWorker, .work secondWorker,
    .call secondWorker]

theorem tasks_are_taken_in_order_two_tasks :
    ∃ s t es, threadpoolCreate 2 2 (fun _ => (⟨0, 0⟩ : Task ℕ ℕ)) = some s ∧
      run step s twoTasksRun = some (t, es) ∧ takenTasks es = [⟨7, 1⟩, ⟨8, 2⟩] ∧
      startedTasks es = [⟨8, 2⟩] ∧
      (∃ queued, t.pool.ring.Holds queued ∧ addedTasks es = takenTasks es ++ queued) ∧
      ∀ w, takenBy w es = startedBy w es ++ (t.worker w).pending ∧
        startedBy w es = finishedBy w es ++ (t.worker w).current :=
  ⟨_, _, _, rfl, rfl, rfl, rfl,
    tasks_are_taken_in_order 2 2 (fun _ => ⟨0, 0⟩) _ _ twoTasksRun _ rfl rfl⟩

lemma count_zero_of_drained {s : State φ ω n} (h : Inv s) (hn : 0 < n)
    (hk : s.pool.shutdown = some .graceful) (hout : s.AllOut) :
    s.pool.count = 0 ∧ ∀ w, s.worker w = .exited := by
  have hcreate : s.create = .returned := by
    have hc := h.create
    cases hpc : s.create with
    | starting => rw [hpc] at hc; simp [hc.1] at hk
    | returned => rfl
    | failed => rw [hpc] at hc; exact absurd hk hc.2
  have hthreads : s.pool.threadCount = n := by
    have hc := h.create
    rw [hcreate] at hc
    exact hc
  have hexit : ∀ w, s.worker w = .exited := by
    intro w
    have hok := h.workers w
    have hw := hout w
    cases hpc : s.worker w with
    | unborn =>
      rw [hpc] at hok
      change s.pool.threadCount ≤ w.val at hok
      exact absurd w.isLt (by omega)
    | exited => rfl
    | _ => simp [hpc, WorkerPc.alive] at hw
  have hok := h.workers ⟨0, hn⟩
  rw [hexit] at hok
  exact ⟨hok.2.2 hk, hexit⟩

lemma threadpoolCreate_pos {threadCount queueSize : ℤ} {queue : ℕ → Task φ ω}
    {s : State φ ω threadCount.toNat} (h : threadpoolCreate threadCount queueSize queue = some s) :
    0 < threadCount.toNat := by
  unfold threadpoolCreate at h
  split at h
  · cases h
  · omega

/-- When a `threadpool_destroy` with `threadpool_graceful` has returned, every accepted task has been
taken, in order, and has been started and finished by the worker that took it; all workers have exited
and the pool has been freed. -/
theorem graceful_destroy_runs_every_task (threadCount queueSize : ℤ) (queue : ℕ → Task φ ω)
    (s t : State φ ω threadCount.toNat) (as : List (Action φ ω threadCount.toNat))
    (es : List (Event φ ω threadCount.toNat))
    (hcreate : threadpoolCreate threadCount queueSize queue = some s)
    (hrun : run step s as = some (t, es)) (hgraceful : .shuttingDown .graceful ∈ es)
    (hreturned : .destroyed none ∈ es) :
    takenTasks es = addedTasks es ∧ (startedTasks es).Perm (addedTasks es) ∧
      (∀ w, startedBy w es = takenBy w es ∧ finishedBy w es = startedBy w es) ∧
      (∀ w, t.worker w = .exited) ∧ t.freed = true := by
  have h := (history_create hcreate).run hrun
  have hk := h.shutdown.1 _ hgraceful
  have hd := h.inv.destroy
  rw [h.shutdown.2 hreturned] at hd
  obtain ⟨hcount, hexit⟩ :=
    count_zero_of_drained h.inv (threadpoolCreate_pos hcreate) hk hd.2.1
  have htaken : takenTasks es = addedTasks es := by
    obtain ⟨queued, hholds, heq⟩ := h.queue
    have hlen : queued.length = 0 := hholds.count_eq.symm.trans hcount
    rw [heq, List.length_eq_zero_iff.mp hlen, List.append_nil]
  have hdone : ∀ w, startedBy w es = takenBy w es ∧ finishedBy w es = startedBy w es := by
    intro w
    obtain ⟨hstarted, hfinished⟩ := h.work w
    rw [hexit w] at hstarted hfinished
    rw [hstarted, hfinished]
    exact ⟨(List.append_nil _).symm, (List.append_nil _).symm⟩
  refine ⟨htaken, ?_, hdone, hexit, hd.2.2⟩
  rw [← htaken]
  exact tasksOf_perm fun w => (hdone w).1

/-- The worker of a pool of one -/
def soleWorker : Fin (Int.toNat 1) := ⟨0, by decide⟩

/-- A graceful shutdown with one task in the queue -/
def gracefulRun : List (Action ℕ ℕ (Int.toNat 1)) :=
  [.spawn, .add (some 7) 1 none, .destroy 1#32, .work soleWorker, .call soleWorker,
    .finish soleWorker, .work soleWorker, .join, .join, .join, .join]

theorem graceful_destroy_runs_every_task_one_task :
    ∃ s t es, threadpoolCreate 1 2 (fun _ => (⟨0, 0⟩ : Task ℕ ℕ)) = some s ∧
      run step s gracefulRun = some (t, es) ∧ addedTasks es = [⟨7, 1⟩] ∧
      takenTasks es = addedTasks es ∧ (startedTasks es).Perm (addedTasks es) ∧ t.freed = true := by
  refine ⟨_, _, [.added ⟨7, 1⟩, .shuttingDown .graceful, .took soleWorker ⟨7, 1⟩,
    .started soleWorker ⟨7, 1⟩, .finished soleWorker ⟨7, 1⟩, .exited soleWorker, .freed,
    .destroyed none], rfl, rfl, rfl, ?_⟩
  have h := graceful_destroy_runs_every_task 1 2 (fun _ => (⟨0, 0⟩ : Task ℕ ℕ)) _ _ gracefulRun _
    rfl rfl (by simp [shutdownOf]) (by simp)
  exact ⟨h.1, h.2.1, h.2.2.2.2⟩

/-- After an immediate flag no step takes or accepts a task, and the queue stays as it is. -/
lemma Moves.immediate {s s' : State φ ω n} {a : Action φ ω n} {es : List (Event φ ω n)}
    (hm : Moves s a s' es) (hk : s.pool.shutdown = some .immediate) :
    (∀ w, takenBy w es = []) ∧ addedTasks es = [] ∧ s'.pool.ring = s.pool.ring := by
  cases hm with
  | added f argument wakee worker hopen hcreate hroom hflag hqueue hsignal =>
    rw [hk] at hflag
    cases hflag
  | take w hw hopen hc hflag hqueue => exact absurd hk hflag
  | _ => exact ⟨fun _ => rfl, rfl, rfl⟩

/-- Once `threadpool_destroy` without `threadpool_graceful` has set the flag, no task is taken and none
is accepted, ever, and the queue keeps the tasks it holds. A worker starts no other task than the one it
had taken before. -/
theorem immediate_shutdown_takes_nothing (threadCount queueSize : ℤ) (queue : ℕ → Task φ ω)
    (s t u : State φ ω threadCount.toNat) (as bs : List (Action φ ω threadCount.toNat))
    (es fs : List (Event φ ω threadCount.toNat))
    (hcreate : threadpoolCreate threadCount queueSize queue = some s)
    (hrun : run step s as = some (t, es)) (himmediate : .shuttingDown .immediate ∈ es)
    (hcont : run step t bs = some (u, fs)) :
    (∀ w, takenBy w fs = []) ∧ addedTasks fs = [] ∧ u.pool.ring = t.pool.ring ∧
      ∀ w, startedBy w fs ++ (u.worker w).pending = (t.worker w).pending := by
  have ht := (history_create hcreate).run hrun
  have hk := ht.shutdown.1 _ himmediate
  have hinv := run_invariant_events step
    (fun v gs => v.pool.shutdown = some .immediate ∧ (∀ w, takenBy w gs = []) ∧ addedTasks gs = [] ∧
      v.pool.ring = t.pool.ring) ?_ ⟨hk, fun _ => rfl, rfl, rfl⟩ hcont
  · refine ⟨hinv.2.1, hinv.2.2.1, hinv.2.2.2, fun w => ?_⟩
    -- what has been taken is the same before and after
    have hu := (((history_create hcreate).run ((run_append_iff step s u as bs _).mpr ⟨t, es, fs, hrun, hcont, rfl⟩)).work w).1
    rw [takenBy, startedBy, tasksBy_append, tasksBy_append, List.append_assoc,
      show tasksBy Event.taking w fs = [] from hinv.2.1 w, List.append_nil] at hu
    exact List.append_cancel_left (hu.symm.trans (ht.work w).1)
  · rintro v gs a v' hs ⟨hv, htaken, hadded, hring⟩ hstep
    have hm := moves_of_step hstep
    obtain ⟨hs1, hs2, hs3⟩ := hm.immediate hv
    refine ⟨?_, fun w => ?_, ?_, hs3.trans hring⟩
    · rw [hm.flag_stable (by simp [hv])]
      exact hv
    · rw [takenBy, tasksBy_append, show tasksBy Event.taking w gs = [] from htaken w]
      exact hs1 w
    · rw [addedTasks_append, hadded, hs2]
      rfl

/-- An immediate shutdown while one task is in the queue and another one has been taken -/
def immediateRun : List (Action ℕ ℕ (Int.toNat 1)) :=
  [.spawn, .add (some 7) 1 none, .work soleWorker, .add (some 8) 2 none, .destroy 0#32]

/-- The worker starts and finishes the task it had taken, and leaves the other in the queue. -/
def leaveQueued : List (Action ℕ ℕ (Int.toNat 1)) :=
  [.call soleWorker, .finish soleWorker, .work soleWorker, .join, .join, .join, .join]

theorem immediate_shutdown_takes_nothing_one_task :
    ∃ s t u es fs, threadpoolCreate 1 2 (fun _ => (⟨0, 0⟩ : Task ℕ ℕ)) = some s ∧
      run step s immediateRun = some (t, es) ∧ t.pool.count = 1 ∧
      run step t leaveQueued = some (u, fs) ∧ u.freed = true ∧
      startedBy soleWorker fs = [⟨7, 1⟩] ∧ takenBy soleWorker fs = [] := by
  refine ⟨_, _, _, [.added ⟨7, 1⟩, .took soleWorker ⟨7, 1⟩, .added ⟨8, 2⟩, .shuttingDown .immediate],
    _, rfl, rfl, rfl, rfl, rfl, rfl, ?_⟩
  exact (immediate_shutdown_takes_nothing 1 2 (fun _ => (⟨0, 0⟩ : Task ℕ ℕ)) _ _ _ immediateRun
    leaveQueued _ _ rfl rfl (by simp [shutdownOf]) rfl).1 soleWorker

/-- While a worker is blocked, every queued task has a worker on its way to the lock. -/
def Served (s : State φ ω n) : Prop :=
  (∃ w, s.worker w = .waiting) → s.pool.count ≤ countWith (fun pc => pc.wantsLock = true) s.worker

/-- A worker that joins the ones on their way to the lock. -/
lemma wantsLock_enter {worker : Fin n → WorkerPc φ ω} {w : Fin n} {pc : WorkerPc φ ω}
    (hold : (worker w).wantsLock = false) (hnew : pc.wantsLock = true) :
    countWith (fun pc => pc.wantsLock = true) (Function.update worker w pc) =
      countWith (fun pc => pc.wantsLock = true) worker + 1 :=
  countWith_update_enter _ _ _ _ (by simp [hold]) hnew

/-- A worker that is still blocked after another one has moved was blocked before. -/
lemma waiting_of_update {worker : Fin n → WorkerPc φ ω} {w : Fin n} {pc : WorkerPc φ ω}
    (hpc : pc ≠ .waiting) (h : ∃ u, Function.update worker w pc u = .waiting) :
    ∃ u, worker u = .waiting := by
  obtain ⟨u, hu⟩ := h
  refine ⟨u, ?_⟩
  by_cases huw : u = w
  · subst huw
    rw [Function.update_self] at hu
    exact absurd hu hpc
  · rwa [Function.update_of_ne huw] at hu

lemma Served.moves {s s' : State φ ω n} {a : Action φ ω n} {es : List (Event φ ω n)}
    (hinv : Inv s) (h : Served s) (hm : Moves s a s' es) : Served s' := by
  cases hm with
  | spawn i hc hi =>
    have hunborn : s.worker i = .unborn := by
      by_contra hne
      have hlt := (hinv.workers i).lt hne
      omega
    intro hex
    have hle := h (waiting_of_update (by simp) hex)
    change s.pool.count ≤ countWith _ (Function.update s.worker i .locking)
    rw [wantsLock_enter (by simp [hunborn, WorkerPc.wantsLock]) rfl]
    omega
  | added f argument wakee worker hopen hcreate hroom hflag hqueue hsignal =>
    cases hsignal with
    | nobody hno =>
      rintro ⟨u, hu⟩
      exact absurd hu (hno u)
    | wakes u hu =>
      intro _
      have hle := h ⟨u, hu⟩
      change s.pool.count + 1 ≤ countWith _ (Function.update s.worker u .woken)
      rw [wantsLock_enter (by simp [hu, WorkerPc.wantsLock]) rfl]
      omega
  | shutdown flags hopen hcreate hflag =>
    rintro ⟨u, hu⟩
    change (s.worker u).wake = .waiting at hu
    cases hpc : s.worker u <;> simp [hpc, WorkerPc.wake] at hu
  | wait w hw hopen hc hflag =>
    intro _
    change s.pool.count ≤ _
    omega
  | leave w hw hopen hflag =>
    intro hex
    obtain ⟨u, hu⟩ := waiting_of_update (by simp) hex
    have hok := hinv.workers u
    rw [hu] at hok
    rcases hflag with hk | ⟨hk, -⟩ <;> simp [hok.2] at hk
  | take w hw hopen hc hflag hqueue =>
    intro hex
    have hle := h (waiting_of_update (by simp) hex)
    have hleave := countWith_update_leave (fun pc : WorkerPc φ ω => pc.wantsLock = true) s.worker w
      (.taken (s.pool.queue s.pool.head)) hw (by simp [WorkerPc.wantsLock])
    change s.pool.count - 1 ≤ countWith _ (Function.update s.worker w (.taken _))
    omega
  | call w task hw =>
    intro hex
    have hle := h (waiting_of_update (by simp) hex)
    have hsame := countWith_update_same (fun pc : WorkerPc φ ω => pc.wantsLock = true) s.worker w
      (.running task) (by simp [hw, WorkerPc.wantsLock])
    change s.pool.count ≤ countWith _ (Function.update s.worker w (.running task))
    omega
  | finish w task hw =>
    intro hex
    have hle := h (waiting_of_update (by simp) hex)
    change s.pool.count ≤ countWith _ (Function.update s.worker w .locking)
    rw [wantsLock_enter (by simp [hw, WorkerPc.wantsLock]) rfl]
    omega
  | spurious w hw =>
    intro _
    have hle := h ⟨w, hw⟩
    change s.pool.count ≤ countWith _ (Function.update s.worker w .woken)
    rw [wantsLock_enter (by simp [hw, WorkerPc.wantsLock]) rfl]
    omega
  | _ => exact h

/-- No wake-up is lost: in every reachable state in which a worker is blocked the flag is not set, and
there are at least as many workers on their way to the lock as tasks in the queue. -/
theorem pool_loses_no_wakeup (threadCount queueSize : ℤ) (queue : ℕ → Task φ ω)
    (s t : State φ ω threadCount.toNat) (as : List (Action φ ω threadCount.toNat))
    (es : List (Event φ ω threadCount.toNat))
    (hcreate : threadpoolCreate threadCount queueSize queue = some s)
    (hrun : run step s as = some (t, es)) (w : Fin threadCount.toNat)
    (hw : t.worker w = .waiting) :
    t.pool.shutdown = none ∧
      t.pool.count ≤ countWith (fun pc => pc.wantsLock = true) t.worker := by
  have hserved : Inv s ∧ Served s := by
    refine ⟨inv_create hcreate, ?_⟩
    unfold threadpoolCreate at hcreate
    split at hcreate
    · cases hcreate
    · cases hcreate
      rintro ⟨u, hu⟩
      cases hu
  have ht := run_invariant_state step (fun v => Inv v ∧ Served v) ?_ hserved hrun
  · have hok := ht.1.workers w
    rw [hw] at hok
    exact ⟨hok.2, ht.2 ⟨w, hw⟩⟩
  · rintro v a v' fs ⟨hinv, hv⟩ hs
    have hm := moves_of_step hs
    exact ⟨hinv.moves hm, hv.moves hinv hm⟩

/-- Both workers of a pool of two block, and a task wakes the first. -/
def blockedRun : List (Action ℕ ℕ (Int.toNat 2)) :=
  [.spawn, .spawn, .work firstWorker, .work secondWorker, .add (some 7) 1 (some firstWorker)]

theorem pool_loses_no_wakeup_two_workers :
    ∃ s t es, threadpoolCreate 2 2 (fun _ => (⟨0, 0⟩ : Task ℕ ℕ)) = some s ∧
      run step s blockedRun = some (t, es) ∧ t.worker secondWorker = .waiting ∧ t.pool.count = 1 ∧
      t.pool.count ≤ countWith (fun pc => pc.wantsLock = true) t.worker :=
  ⟨_, _, _, rfl, rfl, rfl, rfl, (pool_loses_no_wakeup 2 2 (fun _ => ⟨0, 0⟩) _ _ blockedRun _ rfl rfl
    secondWorker rfl).2⟩

end CodeC.ThreadPool
