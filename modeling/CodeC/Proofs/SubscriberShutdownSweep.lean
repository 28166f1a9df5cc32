import CodeC.SubscriberShutdown

/-!
# Which subscribers a `Stop` of `20221206-pubsub` reaches

`Stop` sets the `stop_` of the subscribers it finds in `subscribers_`. The constructor of a
subscriber sets `stop_` to false after it has inserted the subscriber, and under another lock. So a
subscriber is stopped exactly when some `Stop` comes to its place in the set after that.
-/

namespace CodeC.SubscriberShutdown
open Library

variable {n m : ℕ}

@[simp] lemma getOrNew_subscribers (s : State n m) :
    (getOrNew s).1.subscribers = s.subscribers := by
  unfold getOrNew
  split <;> rfl

@[simp] lemma getOrNew_stop (s : State n m) : (getOrNew s).1.stop = s.stop := by
  unfold getOrNew
  split <;> rfl

@[simp] lemma getOrNew_constructor (s : State n m) :
    (getOrNew s).1.constructor = s.constructor := by
  unfold getOrNew
  split <;> rfl

@[simp] lemma getOrNew_stopping (s : State n m) : (getOrNew s).1.stopping = s.stopping := by
  unfold getOrNew
  split <;> rfl

@[simp] lemma getOrNew_thread (s : State n m) : (getOrNew s).1.thread = s.thread := by
  unfold getOrNew
  split <;> rfl

/-- Every step of the system, with its guard and its effect. -/
inductive Move (s : State n m) : Action n m → State n m → Prop
  | newPublisher : Move s .newPublisher (getOrNew s).1
  | getOrNew (k : Fin n) (hk : s.constructor k = .unborn) :
    Move s (.construct k) ((getOrNew s).1.setConstructor k (.got (getOrNew s).2))
  | insert (k : Fin n) (d : ℕ) (hk : s.constructor k = .got d) :
    Move s (.construct k) (insert s k d)
  | initialise (k : Fin n) (d : ℕ) (hk : s.constructor k = .inserted d) :
    Move s (.construct k) (initialise s k d)
  | startThread (k : Fin n) (d : ℕ) (hk : s.constructor k = .initialised d) :
    Move s (.construct k) (startThread s k d)
  | erase (j : Fin m) (d : ℕ) (hj : s.stopping j = .idle) :
    Move s (.stop j d) (eraseTopic s j d)
  | lock (j : Fin m) (d : ℕ) (hj : s.stopping j = .erased d) :
    Move s (.stopping j) (s.setStopping j (.sweeping d (.first (s.subscribers d))))
  | visit (j : Fin m) (d : ℕ) (k : Fin n) (hj : s.stopping j = .sweeping d (.head (some k))) :
    Move s (.stopping j) (stopSubscriber s j d k)
  | next (j : Fin m) (d : ℕ) (k : Fin n) (hj : s.stopping j = .sweeping d (.body k)) :
    Move s (.stopping j) (s.setStopping j (.sweeping d (.next (s.subscribers d) k)))
  | unlock (j : Fin m) (d : ℕ) (hj : s.stopping j = .sweeping d (.head none)) :
    Move s (.stopping j) (s.setStopping j (.swept d))
  | notify (j : Fin m) (d : ℕ) (hj : s.stopping j = .swept d) :
    Move s (.stopping j) (notifyAll s j d)
  | enter (k : Fin n) (hk : s.thread k = .looping) : Move s (.enter k) (enter s k)
  | wake (k : Fin n) (b : Bool) (hk : s.thread k = .waiting b) :
    Move s (.wake k) { s with thread := Function.update s.thread k .looping }

lemma construct_move {s s' : State n m} {k : Fin n} (h : construct s k = some s') :
    Move s (.construct k) s' := by
  unfold construct at h
  cases hk : s.constructor k with
  | unborn =>
    simp only [hk] at h
    obtain rfl := Option.some.inj h
    exact .getOrNew k hk
  | got d =>
    simp only [hk] at h
    obtain rfl := Option.some.inj h
    exact .insert k d hk
  | inserted d =>
    simp only [hk] at h
    obtain rfl := Option.some.inj h
    exact .initialise k d hk
  | initialised d =>
    simp only [hk] at h
    obtain rfl := Option.some.inj h
    exact .startThread k d hk
  | built d => simp [hk] at h

lemma stoppingStep_move {s s' : State n m} {j : Fin m} (h : stoppingStep s j = some s') :
    Move s (.stopping j) s' := by
  unfold stoppingStep at h
  cases hj : s.stopping j with
  | idle => simp [hj] at h
  | erased d =>
    simp only [hj] at h
    obtain ⟨-, h⟩ := Option.ite_none_left_eq_some.mp h
    obtain rfl := Option.some.inj h
    exact .lock j d hj
  | sweeping d c =>
    rcases c with (_ | k) | k
    · simp only [hj] at h
      obtain rfl := Option.some.inj h
      exact .unlock j d hj
    · simp only [hj] at h
      obtain rfl := Option.some.inj h
      exact .visit j d k hj
    · simp only [hj] at h
      obtain rfl := Option.some.inj h
      exact .next j d k hj
  | swept d =>
    simp only [hj] at h
    obtain rfl := Option.some.inj h
    exact .notify j d hj
  | returned d => simp [hj] at h

theorem step_move {s s' : State n m} {a : Action n m} (h : step s a = some s') : Move s a s' := by
  cases a with
  | newPublisher =>
    obtain rfl := Option.some.inj h
    exact .newPublisher
  | construct k => exact construct_move h
  | stop j d =>
    cases hj : s.stopping j with
    | idle =>
      simp only [step, hj] at h
      obtain ⟨-, h⟩ := Option.ite_none_right_eq_some.mp h
      obtain rfl := Option.some.inj h
      exact .erase j d hj
    | _ => simp [step, hj] at h
  | stopping j => exact stoppingStep_move h
  | enter k =>
    simp only [step] at h
    split at h
    next d hk hc =>
      obtain ⟨-, h⟩ := Option.ite_none_left_eq_some.mp h
      obtain rfl := Option.some.inj h
      exact .enter k hk
    · simp at h
  | wake k =>
    simp only [step] at h
    split at h
    next b d hk hc =>
      obtain ⟨-, h⟩ := Option.ite_none_left_eq_some.mp h
      obtain rfl := Option.some.inj h
      exact .wake k b hk
    · simp at h

/-- The delegate whose `subscribers_` holds the subscriber. -/
def Constructor.joined : Constructor → Option ℕ
  | .unborn => none
  | .got _ => none
  | .inserted d => some d
  | .initialised d => some d
  | .built d => some d

/-- The call of `Stop` on `d` is past subscriber `k` and has still to notify. -/
def Stopping.Passing (d : ℕ) (k : Fin n) : Stopping n → Prop
  | .sweeping d' c => d' = d ∧ c.Passed k
  | .swept d' => d' = d
  | _ => False

/-- The call of `Stop` on `d` is past subscriber `k`. -/
def Stopping.Passed (d : ℕ) (k : Fin n) (pc : Stopping n) : Prop :=
  pc.Passing d k ∨ pc = .returned d

structure Inv (s : State n m) : Prop where
  joined : ∀ d k, s.subscribers d k = true ↔ (s.constructor k).joined = some d
  pointing : ∀ j d k, s.stopping j = .sweeping d (.head (some k)) → s.subscribers d k = true

lemma inv_start (stop : Fin n → Bool) : Inv (start stop : State n m) :=
  ⟨by simp [start, Constructor.joined], by simp [start]⟩

/-- A step of one constructor, seen by the others. -/
lemma joined_update {s : State n m} (h : Inv s) {k : Fin n} {pc : Constructor}
    (hpc : pc.joined = (s.constructor k).joined) (d : ℕ) (l : Fin n) :
    s.subscribers d l = true ↔ (Function.update s.constructor k pc l).joined = some d := by
  by_cases hl : l = k
  · rw [hl, Function.update_self, hpc, h.joined]
  · rw [Function.update_of_ne hl, h.joined]

/-- A step of one call of `Stop` to a place where the iterator points to a member. -/
lemma pointing_update {s : State n m} (h : Inv s) {j : Fin m} {pc : Stopping n}
    (hpc : ∀ d k, pc = .sweeping d (.head (some k)) → s.subscribers d k = true)
    (i : Fin m) (d : ℕ) (k : Fin n)
    (hi : Function.update s.stopping j pc i = .sweeping d (.head (some k))) :
    s.subscribers d k = true := by
  by_cases hij : i = j
  · rw [hij, Function.update_self] at hi
    exact hpc d k hi
  · rw [Function.update_of_ne hij] at hi
    exact h.pointing i d k hi

lemma inv_move {s s' : State n m} {a : Action n m} (h : Inv s) (hm : Move s a s') : Inv s' := by
  cases hm with
  | newPublisher => exact ⟨by simpa using h.joined, by simpa using h.pointing⟩
  | getOrNew k hk =>
    refine ⟨?_, by simpa [State.setConstructor] using h.pointing⟩
    simpa [State.setConstructor] using joined_update h (by simp [hk, Constructor.joined])
  | insert k d hk =>
    constructor
    · intro d' l
      by_cases hl : l = k
      · subst hl
        by_cases hd : d' = d
        · simp [insert, hd, Constructor.joined]
        · have hnot := h.joined d' l
          simp only [hk, Constructor.joined] at hnot
          simp [insert, hd, Ne.symm hd, Constructor.joined, hnot]
      · by_cases hd : d' = d
        · simp [insert, hl, hd, h.joined]
        · simp [insert, hl, hd, h.joined]
    · intro j d' l hj
      have hmem := h.pointing j d' l hj
      by_cases hd : d' = d
      · subst hd
        by_cases hl : l = k
        · simp [insert, hl]
        · simp [insert, hl, hmem]
      · simp [insert, hd, hmem]
  | initialise k d hk =>
    exact ⟨joined_update h (by simp [hk, Constructor.joined]), h.pointing⟩
  | startThread k d hk =>
    exact ⟨joined_update h (by simp [hk, Constructor.joined]), h.pointing⟩
  | erase j d hj => exact ⟨h.joined, pointing_update h (by simp)⟩
  | lock j d hj =>
    refine ⟨h.joined, pointing_update h ?_⟩
    rintro d' k hpc
    simp only [Stopping.sweeping.injEq, Cursor.first, Cursor.head.injEq] at hpc
    rw [← hpc.1]
    exact mem_of_firstFrom hpc.2
  | visit j d k hj => exact ⟨h.joined, pointing_update h (by simp)⟩
  | next j d k hj =>
    refine ⟨h.joined, pointing_update h ?_⟩
    rintro d' l hpc
    simp only [Stopping.sweeping.injEq, Cursor.next, Cursor.head.injEq] at hpc
    rw [← hpc.1]
    exact mem_of_firstFrom hpc.2
  | unlock j d hj => exact ⟨h.joined, pointing_update h (by simp)⟩
  | notify j d hj => exact ⟨h.joined, pointing_update h (by simp)⟩
  | enter k hk => exact ⟨h.joined, h.pointing⟩
  | wake k b hk => exact ⟨h.joined, h.pointing⟩

/-- The step sets the `stop_` of subscriber `k`, in the call `j` of `Stop` on `d`. -/
def Visits (d : ℕ) (k : Fin n) (s : State n m) (a : Action n m) (j : Fin m) : Prop :=
  a = .stopping j ∧ s.stopping j = .sweeping d (.head (some k))

lemma not_passed_of_visits {s : State n m} {a : Action n m} {d : ℕ} {k : Fin n} {j : Fin m}
    (h : Visits d k s a j) : ¬(s.stopping j).Passed d k := by
  rw [h.2]
  simp [Stopping.Passed, Stopping.Passing, Cursor.not_passed_head_self]

/-- A step of one call of `Stop`, for all of them. -/
lemma passed_update {s : State n m} {a : Action n m} {d : ℕ} {k : Fin n} {i : Fin m}
    {pc : Stopping n} (ha : ∀ j, a = .stopping j → j = i)
    (hpc : pc.Passed d k ↔ (s.stopping i).Passed d k ∨ Visits d k s a i) (j : Fin m) :
    (Function.update s.stopping i pc j).Passed d k ↔
      (s.stopping j).Passed d k ∨ Visits d k s a j := by
  by_cases hj : j = i
  · rw [hj, Function.update_self, hpc]
  · have hnot : ¬Visits d k s a j := fun hv => hj (ha j hv.1)
    rw [Function.update_of_ne hj]
    exact (or_iff_left hnot).symm

/-- A call of `Stop` gets past a member of `subscribers_` only by visiting it. -/
lemma passed_move {s s' : State n m} {a : Action n m} {d : ℕ} {k : Fin n} (hm : Move s a s')
    (hk : s.subscribers d k = true) (j : Fin m) :
    (s'.stopping j).Passed d k ↔ (s.stopping j).Passed d k ∨ Visits d k s a j := by
  cases hm with
  | newPublisher => simp [Visits]
  | getOrNew l hl => simp [Visits, State.setConstructor]
  | insert l d' hl => simp [Visits, insert]
  | initialise l d' hl => simp [Visits, initialise]
  | startThread l d' hl => simp [Visits, startThread]
  | erase i d' hi =>
    refine passed_update (by simp) ?_ j
    simp [hi, Visits, Stopping.Passed, Stopping.Passing]
  | lock i d' hi =>
    refine passed_update (by simp) ?_ j
    have hfirst : d' = d → ¬(Cursor.first (s.subscribers d')).Passed k := by
      rintro rfl
      exact Cursor.not_passed_first hk
    simpa [hi, Visits, Stopping.Passed, Stopping.Passing] using hfirst
  | visit i d' l hi =>
    refine passed_update (by simp) ?_ j
    simp only [hi, Visits, Stopping.Passed, Stopping.Passing, Cursor.passed_body_iff]
    simp only [Stopping.sweeping.injEq, Cursor.head.injEq, Option.some.injEq, true_and,
      reduceCtorEq, or_false]
    rw [and_or_left, or_comm]
  | next i d' l hi =>
    refine passed_update (by simp) ?_ j
    have hnext : d' = d →
        ((Cursor.next (s.subscribers d') l).Passed k ↔ (Cursor.body l).Passed k) := by
      rintro rfl
      exact Cursor.passed_next_iff hk
    simpa [hi, Visits, Stopping.Passed, Stopping.Passing] using hnext
  | unlock i d' hi =>
    refine passed_update (by simp) ?_ j
    simp [hi, Visits, Stopping.Passed, Stopping.Passing, Cursor.passed_end]
  | notify i d' hi =>
    refine passed_update (by simp) ?_ j
    simp [hi, Visits, Stopping.Passed, Stopping.Passing]
  | enter l hl => simp [Visits, enter]
  | wake l b hl => simp [Visits]

/-- The constructor of `k` on `d` has set `stop_` to false. -/
def Initialised (d : ℕ) (k : Fin n) (s : State n m) : Prop :=
  s.constructor k = .initialised d ∨ s.constructor k = .built d

lemma Initialised.joined {d : ℕ} {k : Fin n} {s : State n m} (h : Initialised d k s) :
    (s.constructor k).joined = some d := by
  obtain hk | hk := h <;> rw [hk] <;> rfl

lemma Initialised.ne {d : ℕ} {k l : Fin n} {s : State n m} (h : Initialised d k s)
    (hl : ¬Initialised d l s) : k ≠ l := by
  rintro rfl
  exact hl h

/-- After the constructor, `stop_` changes only when a call of `Stop` visits the subscriber. -/
lemma stop_move {s s' : State n m} {a : Action n m} {d : ℕ} {k : Fin n} (hinv : Inv s)
    (hk : Initialised d k s) (hm : Move s a s') :
    Initialised d k s' ∧ (s'.stop k = true ↔ s.stop k = true ∨ ∃ j, Visits d k s a j) := by
  cases hm with
  | newPublisher => simpa [Initialised, Visits] using hk
  | getOrNew l hl =>
    have hkl := hk.ne (l := l) (by simp [Initialised, hl])
    simpa [Initialised, Visits, State.setConstructor, hkl] using hk
  | insert l d' hl =>
    have hkl := hk.ne (l := l) (by simp [Initialised, hl])
    simpa [Initialised, Visits, insert, hkl] using hk
  | initialise l d' hl =>
    have hkl := hk.ne (l := l) (by simp [Initialised, hl])
    simpa [Initialised, Visits, initialise, hkl] using hk
  | startThread l d' hl =>
    by_cases hkl : k = l
    · subst hkl
      have hd : d' = d := by simpa [Initialised, hl] using hk
      simp [Initialised, Visits, startThread, hd]
    · simpa [Initialised, Visits, startThread, hkl] using hk
  | erase i d' hi => simpa [Initialised, Visits, eraseTopic] using hk
  | lock i d' hi => simpa [Initialised, Visits, State.setStopping, hi] using hk
  | visit i d' l hi =>
    refine ⟨hk, ?_⟩
    by_cases hkl : k = l
    · subst hkl
      have hd : d = d' := by
        have hjoined := (hinv.joined d' k).mp (hinv.pointing i d' k hi)
        rw [hk.joined] at hjoined
        exact Option.some.inj hjoined
      simp [stopSubscriber, Visits, hi, hd]
    · simp [stopSubscriber, Visits, hi, hkl, Ne.symm hkl]
  | next i d' l hi => simpa [Initialised, Visits, State.setStopping, hi] using hk
  | unlock i d' hi => simpa [Initialised, Visits, State.setStopping, hi] using hk
  | notify i d' hi => simpa [Initialised, Visits, notifyAll, hi] using hk
  | enter l hl => simpa [Initialised, Visits, enter] using hk
  | wake l b hl => simpa [Initialised, Visits] using hk

/-- A thread that sleeps unnotified after a step did so before it or has just found `stop_` false,
and no call of `Stop` on its delegate returned in that step. -/
lemma asleep_of_move {s s' : State n m} {a : Action n m} {d : ℕ} {k : Fin n} (hm : Move s a s')
    (hb : s'.constructor k = .built d) (hw : s'.thread k = .waiting false) :
    s.constructor k = .built d ∧ (s.thread k = .waiting false ∨ s'.stop k = false) ∧
      ∀ j, s'.stopping j = .returned d → s.stopping j = .returned d := by
  have hsame : ∀ {i : Fin m} {pc : Stopping n} (_ : pc ≠ .returned d) (j : Fin m),
      Function.update s.stopping i pc j = .returned d → s.stopping j = .returned d := by
    intro i pc hpc j hj
    by_cases hij : j = i
    · rw [hij, Function.update_self] at hj
      exact absurd hj hpc
    · rwa [Function.update_of_ne hij] at hj
  cases hm with
  | newPublisher =>
    rw [getOrNew_constructor] at hb
    rw [getOrNew_thread] at hw
    exact ⟨hb, Or.inl hw, by simp⟩
  | getOrNew l hl =>
    by_cases hkl : k = l
    · simp [State.setConstructor, hkl] at hb
    · simp only [State.setConstructor, getOrNew_constructor, Function.update_of_ne hkl] at hb
      simp only [State.setConstructor, getOrNew_thread] at hw
      exact ⟨hb, Or.inl hw, by simp [State.setConstructor]⟩
  | insert l d' hl =>
    by_cases hkl : k = l
    · simp [insert, hkl] at hb
    · simp only [insert, Function.update_of_ne hkl] at hb
      exact ⟨hb, Or.inl hw, fun _ hj => hj⟩
  | initialise l d' hl =>
    by_cases hkl : k = l
    · simp [initialise, hkl] at hb
    · simp only [initialise, Function.update_of_ne hkl] at hb
      exact ⟨hb, Or.inl hw, fun _ hj => hj⟩
  | startThread l d' hl =>
    by_cases hkl : k = l
    · simp [startThread, hkl] at hw
    · simp only [startThread, Function.update_of_ne hkl] at hb hw
      exact ⟨hb, Or.inl hw, fun _ hj => hj⟩
  | erase i d' hi => exact ⟨hb, Or.inl hw, hsame (by simp)⟩
  | lock i d' hi => exact ⟨hb, Or.inl hw, hsame (by simp)⟩
  | visit i d' l hi => exact ⟨hb, Or.inl hw, hsame (by simp)⟩
  | next i d' l hi => exact ⟨hb, Or.inl hw, hsame (by simp)⟩
  | unlock i d' hi => exact ⟨hb, Or.inl hw, hsame (by simp)⟩
  | notify i d' hi =>
    by_cases hd : d' = d
    · have hnotified : (s.thread k).notify ≠ .waiting false := by
        cases s.thread k <;> simp [Thread.notify]
      simp only [notifyAll] at hb hw
      rw [hd, if_pos hb] at hw
      exact absurd hw hnotified
    · simp only [notifyAll] at hb hw
      rw [if_neg (by simp [hb, Ne.symm hd])] at hw
      exact ⟨hb, Or.inl hw, hsame (by simp [hd])⟩
  | enter l hl =>
    by_cases hkl : k = l
    · subst hkl
      cases hstop : s.stop k with
      | true => simp [enter, hstop] at hw
      | false => exact ⟨hb, Or.inr hstop, fun _ hj => hj⟩
    · simp only [enter, Function.update_of_ne hkl] at hw
      exact ⟨hb, Or.inl hw, fun _ hj => hj⟩
  | wake l b hl =>
    by_cases hkl : k = l
    · simp [hkl] at hw
    · simp only [Function.update_of_ne hkl] at hw
      exact ⟨hb, Or.inl hw, fun _ hj => hj⟩

/-- A thread sleeps unnotified on a set `stop_` only while a call of `Stop` has still to notify. -/
def WakesSleepers (s : State n m) : Prop :=
  ∀ k d, s.constructor k = .built d → s.thread k = .waiting false → s.stop k = true →
    ∃ j, (s.stopping j).Passing d k

lemma wakesSleepers_move {s s' : State n m} {a : Action n m} (hinv : Inv s) (hm : Move s a s')
    (h : WakesSleepers s) : WakesSleepers s' := by
  intro k d hb' hw' hstop'
  obtain ⟨hb, hw, hreturned⟩ := asleep_of_move hm hb' hw'
  replace hw : s.thread k = .waiting false := by
    obtain hw | hstop := hw
    · exact hw
    · rw [hstop] at hstop'
      cases hstop'
  have hmem : s.subscribers d k = true := by
    rw [hinv.joined, hb]
    rfl
  have hpassed : ∃ j, ((s.stopping j).Passing d k ∨ Visits d k s a j) := by
    obtain hstop | ⟨j, hj⟩ := ((stop_move hinv (Or.inr hb) hm).2).mp hstop'
    · obtain ⟨j, hj⟩ := h k d hb hw hstop
      exact ⟨j, Or.inl hj⟩
    · exact ⟨j, Or.inr hj⟩
  obtain ⟨j, hj⟩ := hpassed
  have hj' : (s'.stopping j).Passed d k :=
    (passed_move hm hmem j).mpr (hj.imp_left Or.inl)
  refine ⟨j, hj'.resolve_right fun hret => ?_⟩
  have hold := hreturned j hret
  obtain hj | hj := hj
  · simp [hold, Stopping.Passing] at hj
  · simp [hold, Visits] at hj

section run

variable {u s : State n m} {as bs : List (Action n m)} {es : List Empty}

lemma inv_run (h : Inv u) (hrun : run (silent step) u as = some (s, es)) : Inv s :=
  run_invariant_state (silent step) Inv (fun _ _ _ _ h hs => inv_move h (step_move
    (silent_eq_some hs))) h hrun

lemma wakesSleepers_run (hu : Inv u) (h : WakesSleepers u)
    (hrun : run (silent step) u as = some (s, es)) : WakesSleepers s :=
  run_invariant_under (silent step) (A := fun _ => True) (I := Inv) (P := WakesSleepers)
    (fun _ _ _ _ h hs => inv_move h (step_move (silent_eq_some hs)))
    (fun _ _ _ _ hI _ hs h => wakesSleepers_move hI (step_move (silent_eq_some hs)) h)
    (fun _ _ => trivial) hu h hrun

/-- `stop_` of `k` is set exactly when a call of `Stop` on `d` has got past `k` since the state
`u`. -/
structure Reached (u : State n m) (d : ℕ) (k : Fin n) (s : State n m) : Prop where
  initialised : Initialised d k s
  passed_mono : ∀ j, (u.stopping j).Passed d k → (s.stopping j).Passed d k
  stop_iff : s.stop k = true ↔ ∃ j, (s.stopping j).Passed d k ∧ ¬(u.stopping j).Passed d k

lemma reached_move {d : ℕ} {k : Fin n} {t t' : State n m} {a : Action n m} (hinv : Inv t)
    (hm : Move t a t') (h : Reached u d k t) : Reached u d k t' := by
  obtain ⟨hinit, hmono, hiff⟩ := h
  have hmem : t.subscribers d k = true := (hinv.joined d k).mpr hinit.joined
  have hpassed := passed_move hm hmem
  obtain ⟨hinit', hstop⟩ := stop_move hinv hinit hm
  refine ⟨hinit', fun j hj => (hpassed j).mpr (Or.inl (hmono j hj)), ?_⟩
  rw [hstop, hiff]
  constructor
  · rintro (⟨j, hj, hnot⟩ | ⟨j, hj⟩)
    · exact ⟨j, (hpassed j).mpr (Or.inl hj), hnot⟩
    · exact ⟨j, (hpassed j).mpr (Or.inr hj), fun hu => not_passed_of_visits hj (hmono j hu)⟩
  · rintro ⟨j, hj, hnot⟩
    obtain hj | hj := (hpassed j).mp hj
    · exact Or.inl ⟨j, hj, hnot⟩
    · exact Or.inr ⟨j, hj⟩

lemma reached_run {d : ℕ} {k : Fin n} {t : State n m} (ht : Inv t) (h : Reached u d k t)
    (hrun : run (silent step) t bs = some (s, es)) : Reached u d k s :=
  run_invariant_under (silent step) (A := fun _ => True) (I := Inv) (P := Reached u d k)
    (fun _ _ _ _ h hs => inv_move h (step_move (silent_eq_some hs)))
    (fun _ _ _ _ hI _ hs h => reached_move hI (step_move (silent_eq_some hs)) h)
    (fun _ _ => trivial) ht h hrun

end run

/-- A call of `Stop` on `d` that has begun has returned. -/
def Finished (d : ℕ) (s : State n m) : Prop :=
  ∀ j, (s.stopping j) ≠ .erased d ∧ (∀ c, s.stopping j ≠ .sweeping d c) ∧ s.stopping j ≠ .swept d

lemma Finished.not_passing {d : ℕ} {s : State n m} (h : Finished d s) (j : Fin m) (k : Fin n) :
    ¬(s.stopping j).Passing d k := by
  obtain ⟨-, hsweeping, hswept⟩ := h j
  intro hp
  cases hj : s.stopping j with
  | sweeping d' c =>
    rw [hj] at hp
    obtain ⟨rfl, -⟩ := hp
    exact hsweeping c hj
  | swept d' =>
    rw [hj] at hp
    obtain rfl : d' = d := hp
    exact hswept hj
  | _ => simp [hj, Stopping.Passing] at hp

/-- Once the calls of `Stop` on a delegate have returned, a subscriber that holds it has its `stop_`
set if and only if one of them had not yet got past its place in `subscribers_` when the
constructor set `stop_` to false. Its thread is then not left asleep. -/
theorem stopped_iff_not_passed (stop : Fin n → Bool) (as bs : List (Action n m)) (d : ℕ)
    (k : Fin n) (u s : State n m) (es₀ es : List Empty)
    (hrun₀ : run (silent step) (start stop) as = some (u, es₀))
    (hk : u.constructor k = .inserted d)
    (hrun : run (silent step) u (.construct k :: bs) = some (s, es)) (hfinished : Finished d s) :
    (s.stop k = true ↔ ∃ j, s.stopping j = .returned d ∧ ¬(u.stopping j).Passed d k) ∧
      (s.constructor k = .built d → s.stop k = true → s.thread k ≠ .waiting false) := by
  have hu : Inv u := inv_run (inv_start stop) hrun₀
  obtain ⟨t, e, f, hs, hr, -⟩ := (run_cons_iff _ _ _ _ _ _).mp hrun
  have hm := step_move (silent_eq_some hs)
  have ht : Inv t := inv_move hu hm
  have htu : t = initialise u k d := by
    have hstep := silent_eq_some hs
    simp only [step, construct, hk] at hstep
    exact (Option.some.inj hstep).symm
  have hreached : Reached u d k t := by
    subst htu
    refine ⟨Or.inl (by simp [initialise]), fun j hj => hj, ?_⟩
    simp [initialise]
  have hend := reached_run ht hreached hr
  have hpassed : ∀ j, (s.stopping j).Passed d k ↔ s.stopping j = .returned d :=
    fun j => or_iff_right (hfinished.not_passing j k)
  refine ⟨?_, ?_⟩
  · rw [hend.stop_iff]
    simp only [hpassed]
  · intro hbuilt hstop hasleep
    have hwakes : WakesSleepers s :=
      wakesSleepers_run hu (wakesSleepers_run (inv_start stop) (by simp [WakesSleepers, start])
        hrun₀) hrun
    obtain ⟨j, hj⟩ := hwakes k d hbuilt hasleep hstop
    exact hfinished.not_passing j k hj

/-- A subscriber that is complete before `Stop` begins. -/
theorem stopped_complete_subscriber :
    ∃ (u s : State 1 1) (es₀ es : List Empty),
      run (silent step) (start fun _ => true) [.newPublisher, .construct 0, .construct 0] =
        some (u, es₀) ∧
      run (silent step) u [.construct 0, .construct 0, .enter 0, .stop 0 0, .stopping 0,
        .stopping 0, .stopping 0, .stopping 0, .stopping 0] = some (s, es) ∧
      s.stopping 0 = .returned 0 ∧ s.stop 0 = true ∧ s.thread 0 = .waiting true := by
  refine ⟨_, _, _, _, rfl, rfl, rfl, ?_, rfl⟩
  refine ((stopped_iff_not_passed (m := 1) (fun _ => true) [.newPublisher, .construct 0,
    .construct 0] [.construct 0, .enter 0, .stop 0 0, .stopping 0, .stopping 0, .stopping 0,
    .stopping 0, .stopping 0] 0 0 _ _ _ _ rfl rfl rfl ?_).1).mpr ⟨0, rfl, ?_⟩
  · intro j
    rw [Subsingleton.elim j 0]
    exact ⟨nofun, nofun, nofun⟩
  · rintro (hp | hp)
    · exact hp
    · cases hp

/-- The subscriber is in `subscribers_` when `Stop` goes through the set, and its constructor sets
`stop_` to false afterwards. Its thread then waits for ever. -/
theorem constructor_overwrites_stop :
    ∃ (s : State 1 1) (es : List Empty),
      run (silent step) (start fun _ => false) [.newPublisher, .construct 0, .construct 0,
        .stop 0 0, .stopping 0, .stopping 0, .stopping 0, .stopping 0, .stopping 0, .construct 0,
        .construct 0, .enter 0] = some (s, es) ∧
      s.stopping 0 = .returned 0 ∧ s.constructor 0 = .built 0 ∧ s.stop 0 = false ∧
      s.thread 0 = .waiting false :=
  ⟨_, _, rfl, rfl, rfl, rfl, rfl⟩

end CodeC.SubscriberShutdown
