import CodeC.Library.Run
import CodeC.Library.Count

/-!
# Monitors: one lock, condition variables, signals and broadcasts

`n` threads run operations on an object behind one lock. An operation is a function from the
object to an outcome: it waits on a condition variable, or it returns a new object, possibly
signals one condition inside the lock and possibly broadcasts others after releasing it.
A signal wakes one of the threads blocked on the condition when there is one, a broadcast all
of them, and a blocked thread may also wake up spuriously. A woken thread has still to
reacquire the lock and then runs its operation again.
-/

namespace CodeC.Library.Monitor

variable {Q Q' ω ρ ρ' C : Type} {n : ℕ}

inductive Outcome (Q ρ C : Type) where
  | wait (c : C)
  | ret (q : Q) (r : ρ) (signal : Option C) (broadcasts : List C)

inductive Thread (ω C : Type) where
  | idle
  | waiting (op : ω) (c : C)
  | woken (op : ω) (c : C)
  | broadcasting (op : ω) (c : C) (rest : List C)

structure State (Q ω C : Type) (n : ℕ) where
  obj : Q
  thread : Fin n → Thread ω C

/-- `wakee` is the thread a signal wakes, if any. -/
inductive Action (ω : Type) (n : ℕ) where
  | call (t : Fin n) (op : ω) (wakee : Option (Fin n))
  | resume (t : Fin n) (wakee : Option (Fin n))
  | broadcast (t : Fin n)
  | spurious (t : Fin n)

/-- `entered` marks a critical section that ran to its end, with its result, and `returned`
the return of the whole operation. -/
inductive Event (ω ρ : Type) (n : ℕ) where
  | entered (t : Fin n) (op : ω) (r : ρ)
  | returned (t : Fin n) (op : ω)

def start (q : Q) : State Q ω C n := ⟨q, fun _ => .idle⟩

/-- The condition a thread is blocked on. -/
def Thread.waitsOn : Thread ω C → Option C
  | .waiting _ c => some c
  | _ => none

/-- The condition whose wait set a thread has left without having resumed. -/
def Thread.wokenFrom : Thread ω C → Option C
  | .woken _ c => some c
  | _ => none

def Thread.wake : Thread ω C → Thread ω C
  | .waiting op c => .woken op c
  | th => th

variable [DecidableEq C]

/-- The effect of an optional signal: `none` when the choice of the woken thread is not one
the signal can make. -/
def deliver (thread : Fin n → Thread ω C) (signal : Option C) (wakee : Option (Fin n)) :
    Option (Fin n → Thread ω C) :=
  match signal, wakee with
  | none, none => some thread
  | none, some _ => none
  | some c, none => if ∃ u, (thread u).waitsOn = some c then none else some thread
  | some c, some u =>
    if (thread u).waitsOn = some c then some (Function.update thread u (thread u).wake) else none

/-- Where a thread goes after its critical section. -/
def Thread.leave (op : ω) : List C → Thread ω C
  | [] => .idle
  | c :: rest => .broadcasting op c rest

def leaveEvents (t : Fin n) (op : ω) : List C → List (Event ω ρ n)
  | [] => [.returned t op]
  | _ :: _ => []

/-- One critical section of thread `t`. -/
def enter (body : Q → ω → Outcome Q ρ C) (s : State Q ω C n) (t : Fin n) (op : ω)
    (wakee : Option (Fin n)) : Option (State Q ω C n × List (Event ω ρ n)) :=
  match body s.obj op with
  | .wait c =>
    match wakee with
    | none => some ({ s with thread := Function.update s.thread t (.waiting op c) }, [])
    | some _ => none
  | .ret q r signal broadcasts =>
    match deliver (Function.update s.thread t (Thread.leave op broadcasts)) signal wakee with
    | none => none
    | some thread => some (⟨q, thread⟩, .entered t op r :: leaveEvents t op broadcasts)

/-- A broadcast on `c` wakes every thread blocked on `c`. -/
def wakeAll (thread : Fin n → Thread ω C) (c : C) : Fin n → Thread ω C :=
  fun u => if (thread u).waitsOn = some c then (thread u).wake else thread u

def step (body : Q → ω → Outcome Q ρ C) (s : State Q ω C n) :
    Action ω n → Option (State Q ω C n × List (Event ω ρ n))
  | .call t op wakee =>
    match s.thread t with
    | .idle => enter body s t op wakee
    | _ => none
  | .resume t wakee =>
    match s.thread t with
    | .woken op _ => enter body s t op wakee
    | _ => none
  | .broadcast t =>
    match s.thread t with
    | .broadcasting op c rest =>
      some ({ s with thread := Function.update (wakeAll s.thread c) t (Thread.leave op rest) },
        leaveEvents t op rest)
    | _ => none
  | .spurious t =>
    match s.thread t with
    | .waiting op c => some ({ s with thread := Function.update s.thread t (.woken op c) }, [])
    | _ => none

/-- The thread may run `op` now: it has just called it or it has been woken inside it. -/
def Ready (s : State Q ω C n) (t : Fin n) (op : ω) : Prop :=
  s.thread t = .idle ∨ ∃ c, s.thread t = .woken op c

/-- What a signal can do to the threads. -/
inductive Delivered (thread : Fin n → Thread ω C) : Option C → (Fin n → Thread ω C) → Prop
  | unsignalled : Delivered thread none thread
  | nobody (c : C) (h : ∀ u, (thread u).waitsOn ≠ some c) : Delivered thread (some c) thread
  | wakes (c : C) (u : Fin n) (op : ω) (h : thread u = .waiting op c) :
    Delivered thread (some c) (Function.update thread u (.woken op c))

/-- Every step of the monitor, with its guard and its effect. -/
inductive Move (body : Q → ω → Outcome Q ρ C) (s : State Q ω C n) :
    State Q ω C n → List (Event ω ρ n) → Prop
  | wait (t : Fin n) (op : ω) (c : C) (hready : Ready s t op) (hbody : body s.obj op = .wait c) :
    Move body s { s with thread := Function.update s.thread t (.waiting op c) } []
  | ret (t : Fin n) (op : ω) (q : Q) (r : ρ) (signal : Option C) (broadcasts : List C)
      (thread : Fin n → Thread ω C) (hready : Ready s t op)
      (hbody : body s.obj op = .ret q r signal broadcasts)
      (hdel : Delivered (Function.update s.thread t (Thread.leave op broadcasts)) signal thread) :
    Move body s ⟨q, thread⟩ (.entered t op r :: leaveEvents t op broadcasts)
  | broadcast (t : Fin n) (op : ω) (c : C) (rest : List C)
      (ht : s.thread t = .broadcasting op c rest) :
    Move body s
      { s with thread := Function.update (wakeAll s.thread c) t (Thread.leave op rest) }
      (leaveEvents t op rest)
  | spurious (t : Fin n) (op : ω) (c : C) (ht : s.thread t = .waiting op c) :
    Move body s { s with thread := Function.update s.thread t (.woken op c) } []

omit [DecidableEq C] in
lemma waitsOn_eq_some {th : Thread ω C} {c : C} (h : th.waitsOn = some c) :
    ∃ op, th = .waiting op c := by
  cases th with
  | waiting op d =>
    simp only [Thread.waitsOn, Option.some.injEq] at h
    exact ⟨op, by rw [h]⟩
  | idle => simp [Thread.waitsOn] at h
  | woken op d => simp [Thread.waitsOn] at h
  | broadcasting op d rest => simp [Thread.waitsOn] at h

lemma deliver_delivered {thread thread' : Fin n → Thread ω C} {signal : Option C}
    {wakee : Option (Fin n)} (h : deliver thread signal wakee = some thread') :
    Delivered thread signal thread' := by
  cases signal with
  | none =>
    cases wakee with
    | none =>
      cases h
      exact .unsignalled
    | some u => simp [deliver] at h
  | some c =>
    cases wakee with
    | none =>
      simp only [deliver] at h
      by_cases hex : ∃ u, (thread u).waitsOn = some c
      · simp [hex] at h
      · rw [if_neg hex] at h
        cases h
        exact .nobody c (fun u hu => hex ⟨u, hu⟩)
    | some u =>
      simp only [deliver] at h
      by_cases hu : (thread u).waitsOn = some c
      · rw [if_pos hu] at h
        obtain ⟨op, hop⟩ := waitsOn_eq_some hu
        cases h
        rw [hop]
        exact .wakes c u op hop
      · simp [hu] at h

/-- A critical section blocks its thread, or it runs to its end. -/
lemma enter_eq_some {body : Q → ω → Outcome Q ρ C} {s s' : State Q ω C n} {t : Fin n} {op : ω}
    {wakee : Option (Fin n)} {es : List (Event ω ρ n)}
    (h : enter body s t op wakee = some (s', es)) :
    (∃ c, body s.obj op = .wait c ∧
      s' = { s with thread := Function.update s.thread t (.waiting op c) } ∧ es = []) ∨
    ∃ q r signal broadcasts thread, body s.obj op = .ret q r signal broadcasts ∧
      deliver (Function.update s.thread t (Thread.leave op broadcasts)) signal wakee =
        some thread ∧
      s' = ⟨q, thread⟩ ∧ es = .entered t op r :: leaveEvents t op broadcasts := by
  unfold enter at h
  cases hbody : body s.obj op with
  | wait c =>
    rw [hbody] at h
    cases wakee with
    | none =>
      cases h
      exact Or.inl ⟨c, rfl, rfl, rfl⟩
    | some u => simp at h
  | ret q r signal broadcasts =>
    simp only [hbody] at h
    cases hdel : deliver (Function.update s.thread t (Thread.leave op broadcasts)) signal wakee with
    | none => simp [hdel] at h
    | some thread =>
      rw [hdel] at h
      cases h
      exact Or.inr ⟨q, r, signal, broadcasts, thread, rfl, hdel, rfl, rfl⟩

lemma enter_move {body : Q → ω → Outcome Q ρ C} {s s' : State Q ω C n} {t : Fin n} {op : ω}
    {wakee : Option (Fin n)} {es : List (Event ω ρ n)} (hready : Ready s t op)
    (h : enter body s t op wakee = some (s', es)) : Move body s s' es := by
  obtain ⟨c, hbody, rfl, rfl⟩ | ⟨q, r, signal, broadcasts, thread, hbody, hdel, rfl, rfl⟩ :=
    enter_eq_some h
  · exact .wait t op c hready hbody
  · exact .ret t op q r signal broadcasts thread hready hbody (deliver_delivered hdel)

/-- Every action of the monitor that is enabled, with the state of its thread. -/
inductive Taken (body : Q → ω → Outcome Q ρ C) (s : State Q ω C n) :
    Action ω n → State Q ω C n → List (Event ω ρ n) → Prop
  | call (t : Fin n) (op : ω) (wakee : Option (Fin n)) (s' : State Q ω C n)
      (es : List (Event ω ρ n)) (ht : s.thread t = .idle)
      (h : enter body s t op wakee = some (s', es)) : Taken body s (.call t op wakee) s' es
  | resume (t : Fin n) (op : ω) (c : C) (wakee : Option (Fin n)) (s' : State Q ω C n)
      (es : List (Event ω ρ n)) (ht : s.thread t = .woken op c)
      (h : enter body s t op wakee = some (s', es)) : Taken body s (.resume t wakee) s' es
  | broadcast (t : Fin n) (op : ω) (c : C) (rest : List C)
      (ht : s.thread t = .broadcasting op c rest) :
    Taken body s (.broadcast t)
      { s with thread := Function.update (wakeAll s.thread c) t (Thread.leave op rest) }
      (leaveEvents t op rest)
  | spurious (t : Fin n) (op : ω) (c : C) (ht : s.thread t = .waiting op c) :
    Taken body s (.spurious t) { s with thread := Function.update s.thread t (.woken op c) } []

lemma step_taken {body : Q → ω → Outcome Q ρ C} {s s' : State Q ω C n} {a : Action ω n}
    {es : List (Event ω ρ n)} (h : step body s a = some (s', es)) : Taken body s a s' es := by
  cases a with
  | call t op wakee =>
    cases ht : s.thread t with
    | idle =>
      simp only [step, ht] at h
      exact .call t op wakee s' es ht h
    | waiting op' c => simp [step, ht] at h
    | woken op' c => simp [step, ht] at h
    | broadcasting op' c rest => simp [step, ht] at h
  | resume t wakee =>
    cases ht : s.thread t with
    | woken op c =>
      simp only [step, ht] at h
      exact .resume t op c wakee s' es ht h
    | idle => simp [step, ht] at h
    | waiting op' c => simp [step, ht] at h
    | broadcasting op' c rest => simp [step, ht] at h
  | broadcast t =>
    cases ht : s.thread t with
    | broadcasting op c rest =>
      simp only [step, ht] at h
      cases h
      exact .broadcast t op c rest ht
    | idle => simp [step, ht] at h
    | waiting op' c => simp [step, ht] at h
    | woken op' c => simp [step, ht] at h
  | spurious t =>
    cases ht : s.thread t with
    | waiting op c =>
      simp only [step, ht] at h
      cases h
      exact .spurious t op c ht
    | idle => simp [step, ht] at h
    | woken op' c => simp [step, ht] at h
    | broadcasting op' c rest => simp [step, ht] at h

theorem step_move {body : Q → ω → Outcome Q ρ C} {s s' : State Q ω C n} {a : Action ω n}
    {es : List (Event ω ρ n)} (h : step body s a = some (s', es)) : Move body s s' es := by
  cases step_taken h with
  | call t op wakee s' es ht henter => exact enter_move (Or.inl ht) henter
  | resume t op c wakee s' es ht henter => exact enter_move (Or.inr ⟨c, ht⟩) henter
  | broadcast t op c rest ht => exact .broadcast t op c rest ht
  | spurious t op c ht => exact .spurious t op c ht

section objects

variable {body : Q → ω → Outcome Q ρ C}

/-- The critical sections that ran to their end, with their results. -/
def sections (es : List (Event ω ρ n)) : List (ω × ρ) :=
  es.filterMap fun e => match e with
    | .entered _ op r => some (op, r)
    | .returned _ _ => none

omit [DecidableEq C] in
@[simp] lemma sections_leaveEvents (t : Fin n) (op : ω) (broadcasts : List C) :
    sections (leaveEvents t op broadcasts : List (Event ω ρ n)) = [] := by
  cases broadcasts <;> rfl

lemma sections_append (es fs : List (Event ω ρ n)) :
    sections (es ++ fs) = sections es ++ sections fs :=
  List.filterMap_append

@[simp] lemma sections_entered (t : Fin n) (op : ω) (r : ρ) (es : List (Event ω ρ n)) :
    sections (.entered t op r :: es) = (op, r) :: sections es := rfl

/-- The operation whose critical section an action runs. -/
def running (s : State Q ω C n) : Action ω n → Option ω
  | .call _ op _ => some op
  | .resume t _ =>
    match s.thread t with
    | .woken op _ => some op
    | _ => none
  | _ => none

/-- What a step does to the object: nothing, or one critical section that runs to its end. -/
def ObjectStep (body : Q → ω → Outcome Q ρ C) (s s' : State Q ω C n) (a : Action ω n)
    (es : List (Event ω ρ n)) : Prop :=
  (s'.obj = s.obj ∧ sections es = [] ∧
    ∀ op, running s a = some op → ∃ c, body s.obj op = .wait c) ∨
  ∃ op r signal broadcasts, running s a = some op ∧
    body s.obj op = .ret s'.obj r signal broadcasts ∧ sections es = [(op, r)]

lemma enter_object {s s' : State Q ω C n} {a : Action ω n} {t : Fin n} {op : ω}
    {wakee : Option (Fin n)} {es : List (Event ω ρ n)} (hrunning : running s a = some op)
    (h : enter body s t op wakee = some (s', es)) : ObjectStep body s s' a es := by
  obtain ⟨c, hbody, rfl, rfl⟩ | ⟨q, r, signal, broadcasts, thread, hbody, -, rfl, rfl⟩ :=
    enter_eq_some h
  · refine Or.inl ⟨rfl, rfl, ?_⟩
    intro op' hop'
    rw [hrunning] at hop'
    cases hop'
    exact ⟨c, hbody⟩
  · exact Or.inr ⟨op, r, signal, broadcasts, hrunning, hbody, by simp⟩

lemma step_object {s s' : State Q ω C n} {a : Action ω n} {es : List (Event ω ρ n)}
    (h : step body s a = some (s', es)) : ObjectStep body s s' a es := by
  cases step_taken h with
  | call t op wakee s' es ht henter => exact enter_object rfl henter
  | resume t op c wakee s' es ht henter =>
    apply enter_object ?_ henter
    simp only [running, ht]
  | broadcast t op c rest ht => exact Or.inl ⟨rfl, by simp, by simp [running]⟩
  | spurious t op c ht => exact Or.inl ⟨rfl, rfl, by simp [running]⟩

/-- What every critical section preserves about the object and the sections so far holds
after every run, whatever the waits, signals and broadcasts do. -/
theorem run_object_invariant (J : Q → List (ω × ρ) → Prop)
    (hbody : ∀ q l op q' r signal broadcasts, J q l → body q op = .ret q' r signal broadcasts →
      J q' (l ++ [(op, r)]))
    {s t : State Q ω C n} {as : List (Action ω n)} {es : List (Event ω ρ n)} (h : J s.obj [])
    (hrun : run (step body) s as = some (t, es)) : J t.obj (sections es) := by
  apply run_invariant_events (step body) (fun s es => J s.obj (sections es)) ?_ h hrun
  intro s g a s' es hJ hs
  rw [sections_append]
  rcases step_object hs with ⟨hobj, hnone, _⟩ | ⟨op, r, signal, broadcasts, _, hret, hone⟩
  · rw [hobj, hnone, List.append_nil]
    exact hJ
  · rw [hone]
    exact hbody s.obj (sections g) op s'.obj r signal broadcasts hJ hret

end objects

section simulation

variable {body : Q → ω → Outcome Q ρ C} {body' : Q' → ω → Outcome Q' ρ' C}

/-- Outcomes that agree up to the relation on objects and the translation of results. -/
inductive Outcome.Rel (R : Q → Q' → Prop) (g : ρ → ρ') : Outcome Q ρ C → Outcome Q' ρ' C → Prop
  | wait (c : C) : Rel R g (.wait c) (.wait c)
  | ret (q : Q) (q' : Q') (r : ρ) (signal : Option C) (broadcasts : List C) (h : R q q') :
    Rel R g (.ret q r signal broadcasts) (.ret q' (g r) signal broadcasts)

def Event.map (g : ρ → ρ') : Event ω ρ n → Event ω ρ' n
  | .entered t op r => .entered t op (g r)
  | .returned t op => .returned t op

lemma sections_map (g : ρ → ρ') (es : List (Event ω ρ n)) :
    sections (es.map (Event.map g)) = (sections es).map fun p => (p.1, g p.2) := by
  unfold sections
  rw [List.filterMap_map, List.map_filterMap]
  apply List.filterMap_congr
  intro e _
  cases e <;> rfl

/-- Two monitors in corresponding states: related objects and the same threads. -/
def State.Rel (R : Q → Q' → Prop) (s : State Q ω C n) (s' : State Q' ω C n) : Prop :=
  R s.obj s'.obj ∧ s'.thread = s.thread

omit [DecidableEq C] in
lemma map_leaveEvents (g : ρ → ρ') (t : Fin n) (op : ω) (broadcasts : List C) :
    (leaveEvents t op broadcasts).map (Event.map g) = leaveEvents t op broadcasts := by
  cases broadcasts <;> rfl

variable {R : Q → Q' → Prop} {g : ρ → ρ'}

lemma enter_simulates (hbody : ∀ q q' op, R q q' → Outcome.Rel R g (body q op) (body' q' op))
    {s t : State Q ω C n} {s' : State Q' ω C n} {u : Fin n} {op : ω} {wakee : Option (Fin n)}
    {es : List (Event ω ρ n)} (hrel : s.Rel R s')
    (h : enter body s u op wakee = some (t, es)) :
    ∃ t', enter body' s' u op wakee = some (t', es.map (Event.map g)) ∧ t.Rel R t' := by
  have hout := hbody s.obj s'.obj op hrel.1
  unfold enter at h ⊢
  rw [hrel.2]
  generalize hb : body s.obj op = out at h hout
  generalize hb' : body' s'.obj op = out' at hout
  cases hout with
  | wait c =>
    cases wakee with
    | none =>
      cases h
      exact ⟨_, rfl, hrel.1, rfl⟩
    | some v => simp at h
  | ret q q' r signal broadcasts hq =>
    simp only at h ⊢
    cases hdel : deliver (Function.update s.thread u (Thread.leave op broadcasts)) signal wakee with
    | none => simp [hdel] at h
    | some thread =>
      rw [hdel] at h
      cases h
      refine ⟨⟨q', thread⟩, ?_, hq, rfl⟩
      simp [Event.map, map_leaveEvents]

/-- One step of the concrete monitor is the same step of the abstract one. -/
lemma step_simulates (hbody : ∀ q q' op, R q q' → Outcome.Rel R g (body q op) (body' q' op))
    {s t : State Q ω C n} {s' : State Q' ω C n} {a : Action ω n} {es : List (Event ω ρ n)}
    (hrel : s.Rel R s') (h : step body s a = some (t, es)) :
    ∃ t', step body' s' a = some (t', es.map (Event.map g)) ∧ t.Rel R t' := by
  cases step_taken h with
  | call u op wakee t es hu henter =>
    simp only [step, hrel.2, hu]
    exact enter_simulates hbody hrel henter
  | resume u op c wakee t es hu henter =>
    simp only [step, hrel.2, hu]
    exact enter_simulates hbody hrel henter
  | broadcast u op c rest hu =>
    refine ⟨⟨s'.obj, Function.update (wakeAll s.thread c) u (Thread.leave op rest)⟩, ?_, hrel.1, rfl⟩
    simp only [step, hrel.2, hu, map_leaveEvents]
  | spurious u op c hu =>
    refine ⟨⟨s'.obj, Function.update s.thread u (.woken op c)⟩, ?_, hrel.1, rfl⟩
    simp only [step, hrel.2, hu, List.map_nil]

/-- Forward simulation: when the critical sections agree, every interleaving of the concrete
monitor is an interleaving of the abstract one, with the same threads blocked and woken. -/
theorem run_simulates (hbody : ∀ q q' op, R q q' → Outcome.Rel R g (body q op) (body' q' op))
    {s t : State Q ω C n} {s' : State Q' ω C n} {as : List (Action ω n)}
    {es : List (Event ω ρ n)} (hrel : s.Rel R s') (hrun : run (step body) s as = some (t, es)) :
    ∃ t', run (step body') s' as = some (t', es.map (Event.map g)) ∧ t.Rel R t' := by
  induction as generalizing s s' es with
  | nil =>
    simp only [run_nil, Option.some.injEq, Prod.mk.injEq] at hrun
    obtain ⟨rfl, rfl⟩ := hrun
    exact ⟨s', by simp, hrel⟩
  | cons a as ih =>
    obtain ⟨u, e, f, hu, hr, rfl⟩ := (run_cons_iff (step body) s t a as es).mp hrun
    obtain ⟨u', hu', hrel'⟩ := step_simulates hbody hrel hu
    obtain ⟨t', ht', hrelt⟩ := ih hrel' hr
    refine ⟨t', ?_, hrelt⟩
    rw [run_cons_iff]
    exact ⟨u', _, _, hu', ht', List.map_append⟩

end simulation

end CodeC.Library.Monitor
