import Mathlib.Data.List.Induction

/-!
# Runs of event-emitting step functions

A system is a partial step function `σ → α → Option (σ × List ε)`: `none` when the action
is not enabled, otherwise the next state and the events the step emits. An interleaving is
a list of actions, and every observation of a run is a fold over the events it emitted.
-/

namespace CodeC.Library

variable {σ α ε γ : Type}

/-- The state and the emitted events after executing all the actions of an interleaving. -/
def run (step : σ → α → Option (σ × List ε)) : σ → List α → Option (σ × List ε)
  | s, [] => some (s, [])
  | s, a :: as =>
    match step s a with
    | none => none
    | some (s', es) =>
      match run step s' as with
      | none => none
      | some (t, fs) => some (t, es ++ fs)

@[simp] lemma run_nil (step : σ → α → Option (σ × List ε)) (s : σ) :
    run step s [] = some (s, []) := rfl

lemma run_cons_iff (step : σ → α → Option (σ × List ε)) (s t : σ) (a : α) (as : List α)
    (es : List ε) :
    run step s (a :: as) = some (t, es) ↔
      ∃ s' e f, step s a = some (s', e) ∧ run step s' as = some (t, f) ∧ es = e ++ f := by
  rw [run]
  cases hstep : step s a with
  | none => simp
  | some p =>
    obtain ⟨s', e⟩ := p
    cases hrun : run step s' as with
    | none => simp [hrun]
    | some q =>
      obtain ⟨t', f⟩ := q
      simp only [Option.some.injEq, Prod.mk.injEq, hrun]
      constructor
      · rintro ⟨rfl, rfl⟩
        exact ⟨s', e, f, ⟨rfl, rfl⟩, by simp [hrun], rfl⟩
      · rintro ⟨u, e', f', ⟨rfl, rfl⟩, hf, rfl⟩
        rw [hrun] at hf
        simp only [Option.some.injEq, Prod.mk.injEq] at hf
        exact ⟨hf.1, by rw [hf.2]⟩

lemma run_append_iff (step : σ → α → Option (σ × List ε)) (s t : σ) (as bs : List α)
    (es : List ε) :
    run step s (as ++ bs) = some (t, es) ↔
      ∃ s' e f, run step s as = some (s', e) ∧ run step s' bs = some (t, f) ∧ es = e ++ f := by
  induction as generalizing s es with
  | nil => simp
  | cons a as ih =>
    simp only [List.cons_append, run_cons_iff, ih]
    constructor
    · rintro ⟨u, e, f, hu, ⟨v, e', f', hv, hf, rfl⟩, rfl⟩
      exact ⟨v, e ++ e', f', ⟨u, e, e', hu, hv, rfl⟩, hf, by simp⟩
    · rintro ⟨v, e', f', ⟨u, e, e'', hu, hv, rfl⟩, hf, rfl⟩
      exact ⟨u, e, e'' ++ f', hu, ⟨v, e'', f', hv, hf, rfl⟩, by simp⟩

/-- A step function without events. -/
def silent (step : σ → α → Option σ) (s : σ) (a : α) : Option (σ × List Empty) :=
  (step s a).map fun t => (t, [])

lemma silent_eq_some {step : σ → α → Option σ} {s t : σ} {a : α} {es : List Empty}
    (h : silent step s a = some (t, es)) : step s a = some t := by
  unfold silent at h
  cases hs : step s a with
  | none => simp [hs] at h
  | some u =>
    simp only [hs, Option.map_some, Option.some.injEq, Prod.mk.injEq] at h
    rw [h.1]

/-- The observation of a run: `record` folded over the events it emitted. -/
def observe (record : γ → ε → γ) (g : γ) (es : List ε) : γ := es.foldl record g

@[simp] lemma observe_nil (record : γ → ε → γ) (g : γ) : observe record g [] = g := rfl

@[simp] lemma observe_cons (record : γ → ε → γ) (g : γ) (e : ε) (es : List ε) :
    observe record g (e :: es) = observe record (record g e) es := rfl

lemma observe_append (record : γ → ε → γ) (g : γ) (es fs : List ε) :
    observe record g (es ++ fs) = observe record (observe record g es) fs :=
  List.foldl_append

/-- Every step of the interleaving is taken from a state that satisfies `C` with its action. -/
def StepsMeet (step : σ → α → Option (σ × List ε)) (C : σ → α → Prop) : σ → List α → Prop
  | _, [] => True
  | s, a :: as => C s a ∧ ∀ s' es, step s a = some (s', es) → StepsMeet step C s' as

lemma stepsMeet_of_forall {step : σ → α → Option (σ × List ε)} {A : α → Prop} {as : List α}
    (hA : ∀ a ∈ as, A a) (s : σ) : StepsMeet step (fun _ a => A a) s as := by
  induction as generalizing s with
  | nil => trivial
  | cons a as ih =>
    constructor
    · exact hA a (by simp)
    · intro s' es _
      exact ih (fun b hb => hA b (by simp [hb])) s'

lemma stepsMeet_left {step : σ → α → Option (σ × List ε)} {C : σ → α → Prop} {s : σ}
    {as bs : List α} (h : StepsMeet step C s (as ++ bs)) : StepsMeet step C s as := by
  induction as generalizing s with
  | nil => trivial
  | cons a as ih => exact ⟨h.1, fun s' es hs => ih (h.2 s' es hs)⟩

lemma stepsMeet_append {step : σ → α → Option (σ × List ε)} {C : σ → α → Prop} {s t : σ}
    {as bs : List α} {es : List ε} (has : StepsMeet step C s as)
    (hrun : run step s as = some (t, es)) (hbs : StepsMeet step C t bs) :
    StepsMeet step C s (as ++ bs) := by
  induction as generalizing s es with
  | nil =>
    simp only [run_nil, Option.some.injEq, Prod.mk.injEq] at hrun
    rw [hrun.1]
    exact hbs
  | cons a as ih =>
    obtain ⟨u, e, f, hu, hr, -⟩ := (run_cons_iff step s t a as es).mp hrun
    refine ⟨has.1, fun s' es' hs => ?_⟩
    obtain ⟨rfl, rfl⟩ := Prod.mk.inj (Option.some.inj (hu.symm.trans hs))
    exact ih (has.2 u e hu) hr

/-- Invariant rule: what every step that meets `C` preserves, about the state together with the
observation so far, holds at the end of every run of such steps. -/
theorem run_invariant_meeting (step : σ → α → Option (σ × List ε)) (record : γ → ε → γ)
    (C : σ → α → Prop) (I : σ → γ → Prop)
    (hstep : ∀ s g a s' es, C s a → I s g → step s a = some (s', es) → I s' (observe record g es))
    {s t : σ} {g : γ} {as : List α} {es : List ε} (hC : StepsMeet step C s as) (h : I s g)
    (hrun : run step s as = some (t, es)) : I t (observe record g es) := by
  induction as generalizing s g es with
  | nil =>
    simp only [run_nil, Option.some.injEq, Prod.mk.injEq] at hrun
    obtain ⟨rfl, rfl⟩ := hrun
    exact h
  | cons a as ih =>
    obtain ⟨s', e, f, hs, hr, rfl⟩ := (run_cons_iff step s t a as es).mp hrun
    rw [observe_append]
    exact ih (hC.2 s' e hs) (hstep s g a s' e hC.1 h hs) hr

/-- The invariant rule for runs whose actions all satisfy `A`. -/
theorem run_invariant_on (step : σ → α → Option (σ × List ε)) (record : γ → ε → γ)
    (A : α → Prop) (I : σ → γ → Prop)
    (hstep : ∀ s g a s' es, A a → I s g → step s a = some (s', es) → I s' (observe record g es))
    {s t : σ} {g : γ} {as : List α} {es : List ε} (hA : ∀ a ∈ as, A a) (h : I s g)
    (hrun : run step s as = some (t, es)) : I t (observe record g es) :=
  run_invariant_meeting step record (fun _ a => A a) I hstep (stepsMeet_of_forall hA s) h hrun

theorem run_invariant (step : σ → α → Option (σ × List ε)) (record : γ → ε → γ)
    (I : σ → γ → Prop)
    (hstep : ∀ s g a s' es, I s g → step s a = some (s', es) → I s' (observe record g es))
    {s t : σ} {g : γ} {as : List α} {es : List ε} (h : I s g)
    (hrun : run step s as = some (t, es)) : I t (observe record g es) :=
  run_invariant_on step record (fun _ => True) I (fun s g a s' es _ => hstep s g a s' es)
    (fun _ _ => trivial) h hrun

/-- The invariant rule for properties of the state alone. -/
theorem run_invariant_state (step : σ → α → Option (σ × List ε)) (I : σ → Prop)
    (hstep : ∀ s a s' es, I s → step s a = some (s', es) → I s')
    {s t : σ} {as : List α} {es : List ε} (h : I s)
    (hrun : run step s as = some (t, es)) : I t :=
  run_invariant step (fun (g : Unit) _ => g) (fun s _ => I s)
    (fun s _ a s' es hs ha => hstep s a s' es hs ha) (g := ()) h hrun

/-- The rule for a property that the allowed steps preserve only where an invariant holds. -/
theorem run_invariant_under (step : σ → α → Option (σ × List ε)) {A : α → Prop} {I P : σ → Prop}
    (hI : ∀ s a s' es, I s → step s a = some (s', es) → I s')
    (hP : ∀ s a s' es, I s → A a → step s a = some (s', es) → P s → P s')
    {s t : σ} {as : List α} {es : List ε} (hA : ∀ a ∈ as, A a) (hs : I s) (h : P s)
    (hrun : run step s as = some (t, es)) : P t := by
  refine (run_invariant_on step (fun (g : Unit) _ => g) A (fun u _ => I u ∧ P u) ?_ hA (g := ())
    ⟨hs, h⟩ hrun).2
  rintro u - a u' fs ha ⟨hu, hPu⟩ hstep
  exact ⟨hI u a u' fs hu hstep, hP u a u' fs hu ha hstep hPu⟩

/-- Termination rule: where an invariant holds, allowed steps lower `μ`, so that no run of such steps
is longer than `μ`. -/
theorem run_length_le (step : σ → α → Option (σ × List ε)) {A : α → Prop} {I : σ → Prop} (μ : σ → ℕ)
    (hstep : ∀ s a s' es, I s → A a → step s a = some (s', es) → I s' ∧ μ s' < μ s)
    {s t : σ} {as : List α} {es : List ε} (hA : ∀ a ∈ as, A a) (h : I s)
    (hrun : run step s as = some (t, es)) : I t ∧ as.length + μ t ≤ μ s := by
  induction as generalizing s es with
  | nil =>
    simp only [run_nil, Option.some.injEq, Prod.mk.injEq] at hrun
    obtain ⟨rfl, rfl⟩ := hrun
    exact ⟨h, by simp⟩
  | cons a as ih =>
    obtain ⟨s', e, f, hs, hr, rfl⟩ := (run_cons_iff step s t a as es).mp hrun
    obtain ⟨hI, hlt⟩ := hstep s a s' e h (hA a (by simp)) hs
    obtain ⟨ht, hle⟩ := ih (fun b hb => hA b (by simp [hb])) hI hr
    refine ⟨ht, ?_⟩
    rw [List.length_cons]
    omega

/-- The invariant rule for properties of the state and the events emitted so far. -/
theorem run_invariant_events (step : σ → α → Option (σ × List ε)) (I : σ → List ε → Prop)
    (hstep : ∀ s g a s' es, I s g → step s a = some (s', es) → I s' (g ++ es))
    {s t : σ} {as : List α} {es : List ε} (h : I s [])
    (hrun : run step s as = some (t, es)) : I t es := by
  have hobserve : ∀ (g fs : List ε), observe (fun l e => l ++ [e]) g fs = g ++ fs := by
    intro g fs
    induction fs generalizing g with
    | nil => simp
    | cons e fs ih => rw [observe_cons, ih, List.append_assoc, List.singleton_append]
  have hI := run_invariant step (fun l e => l ++ [e]) I
    (fun s g a s' es hs ha => by rw [hobserve]; exact hstep s g a s' es hs ha) h hrun
  rwa [hobserve, List.nil_append] at hI

/-- Every state visited by the interleaving, its first and its last included, satisfies `P`. -/
def Throughout (step : σ → α → Option (σ × List ε)) (P : σ → Prop) : σ → List α → Prop
  | s, [] => P s
  | s, a :: as => P s ∧ ∀ s' es, step s a = some (s', es) → Throughout step P s' as

lemma Throughout.head {step : σ → α → Option (σ × List ε)} {P : σ → Prop} {s : σ} {as : List α}
    (h : Throughout step P s as) : P s := by
  cases as with
  | nil => exact h
  | cons a as => exact h.1

lemma stepsMeet_cons {step : σ → α → Option (σ × List ε)} {C : σ → α → Prop} {s s' : σ} {a : α}
    {es : List ε} {as : List α} (hs : step s a = some (s', es)) (hC : C s a)
    (h : StepsMeet step C s' as) : StepsMeet step C s (a :: as) := by
  refine ⟨hC, fun t fs ht => ?_⟩
  obtain ⟨rfl, rfl⟩ := Prod.mk.inj (Option.some.inj (hs.symm.trans ht))
  exact h

/-- A run whose steps all meet `C` stays in every invariant that such steps preserve. -/
theorem throughout_of_stepsMeet {step : σ → α → Option (σ × List ε)} {C : σ → α → Prop}
    {I P : σ → Prop}
    (hstep : ∀ s a s' es, I s → C s a → step s a = some (s', es) → I s')
    (hI : ∀ s, I s → P s) {s : σ} {as : List α} (h : I s) (hC : StepsMeet step C s as) :
    Throughout step P s as := by
  induction as generalizing s with
  | nil => exact hI s h
  | cons a as ih =>
    refine ⟨hI s h, fun s' es hs => ?_⟩
    exact ih (hstep s a s' es h hC.1 hs) (hC.2 s' es hs)

/-- Conversely, when the first step that misses `C` leads to a state without `P`, a run
that keeps `P` meets `C` in all its steps. -/
theorem stepsMeet_of_throughout {step : σ → α → Option (σ × List ε)} {C : σ → α → Prop}
    {I P : σ → Prop}
    (hstep : ∀ s a s' es, I s → C s a → step s a = some (s', es) → I s')
    (hbad : ∀ s a, I s → ¬C s a → ∃ s' es, step s a = some (s', es) ∧ ¬P s')
    {s : σ} {as : List α} (h : I s) (hP : Throughout step P s as) : StepsMeet step C s as := by
  induction as generalizing s with
  | nil => trivial
  | cons a as ih =>
    have hC : C s a := by
      by_contra hn
      obtain ⟨s', es, hs, hnP⟩ := hbad s a h hn
      exact hnP (hP.2 s' es hs).head
    exact ⟨hC, fun s' es hs => ih (hstep s a s' es h hC hs) (hP.2 s' es hs)⟩

/-- Every step of the interleaving satisfies `P`, with the state it is taken from, the events
emitted before it and its action. -/
def EachStep (step : σ → α → Option (σ × List ε)) (P : σ → List ε → α → Prop) (s : σ)
    (as : List α) : Prop :=
  ∀ bs a cs t es, as = bs ++ a :: cs → run step s bs = some (t, es) → P t es a

lemma eachStep_nil (step : σ → α → Option (σ × List ε)) (P : σ → List ε → α → Prop) (s : σ) :
    EachStep step P s [] := by
  intro bs a cs t es has
  simp at has

lemma eachStep_cons {step : σ → α → Option (σ × List ε)} {P : σ → List ε → α → Prop} {s s' : σ}
    {a : α} {as : List α} {e : List ε} (hs : step s a = some (s', e)) (hP : P s [] a)
    (h : EachStep step (fun t es b => P t (e ++ es) b) s' as) : EachStep step P s (a :: as) := by
  intro bs b cs t es has hrun
  cases bs with
  | nil =>
    obtain ⟨rfl, rfl⟩ := List.cons.inj has
    simp only [run_nil, Option.some.injEq, Prod.mk.injEq] at hrun
    obtain ⟨rfl, rfl⟩ := hrun
    exact hP
  | cons c bs =>
    obtain ⟨rfl, rfl⟩ := List.cons.inj has
    obtain ⟨u, e', f, hu, hr, rfl⟩ := (run_cons_iff step s t _ bs es).mp hrun
    obtain ⟨rfl, rfl⟩ := Prod.mk.inj (Option.some.inj (hs.symm.trans hu))
    exact h bs b cs t f rfl hr

/-- Conditions that agree at every step of the interleaving. -/
lemma eachStep_iff {step : σ → α → Option (σ × List ε)} {P Q : σ → List ε → α → Prop} {s : σ}
    {as : List α} (h : ∀ bs a cs t es, as = bs ++ a :: cs → run step s bs = some (t, es) →
      (P t es a ↔ Q t es a)) :
    EachStep step P s as ↔ EachStep step Q s as := by
  constructor
  · intro hP bs a cs t es has hrun
    exact (h bs a cs t es has hrun).mp (hP bs a cs t es has hrun)
  · intro hQ bs a cs t es has hrun
    exact (h bs a cs t es has hrun).mpr (hQ bs a cs t es has hrun)

lemma eachStep_left {step : σ → α → Option (σ × List ε)} {P : σ → List ε → α → Prop} {s : σ}
    {as bs : List α} (h : EachStep step P s (as ++ bs)) : EachStep step P s as := by
  intro cs a ds t es has hrun
  exact h cs a (ds ++ bs) t es (by simp [has]) hrun

lemma eachStep_right {step : σ → α → Option (σ × List ε)} {P : σ → List ε → α → Prop} {s t : σ}
    {as bs : List α} {es : List ε} (h : EachStep step P s (as ++ bs))
    (hrun : run step s as = some (t, es)) :
    EachStep step (fun u fs a => P u (es ++ fs) a) t bs := by
  intro cs a ds u fs hbs hu
  exact h (as ++ cs) a ds u (es ++ fs) (by simp [hbs])
    ((run_append_iff step s u as cs _).mpr ⟨t, es, fs, hrun, hu, rfl⟩)

/-- The invariant rule for runs whose steps meet a condition on the state and on the events
emitted before the step. -/
theorem run_invariant_eachStep (step : σ → α → Option (σ × List ε)) (P : σ → List ε → α → Prop)
    (I : σ → List ε → Prop)
    (hstep : ∀ s g a s' es, P s g a → I s g → step s a = some (s', es) → I s' (g ++ es))
    {s t : σ} {as : List α} {es : List ε} (hP : EachStep step P s as) (h : I s [])
    (hrun : run step s as = some (t, es)) : I t es := by
  induction as using List.reverseRecOn generalizing t es with
  | nil =>
    simp only [run_nil, Option.some.injEq, Prod.mk.injEq] at hrun
    obtain ⟨rfl, rfl⟩ := hrun
    exact h
  | append_singleton as a ih =>
    obtain ⟨u, e, f, hu, ha, rfl⟩ := (run_append_iff step s t as [a] es).mp hrun
    obtain ⟨v, f', f'', hv, hnil, rfl⟩ := (run_cons_iff step u t a [] f).mp ha
    simp only [run_nil, Option.some.injEq, Prod.mk.injEq] at hnil
    obtain ⟨rfl, rfl⟩ := hnil
    rw [List.append_nil]
    exact hstep u e a v f' (hP as a [] u e rfl hu) (ih (eachStep_left hP) hu) hv

/-- Every event of the trace satisfies `P` with the events before it. -/
def EachEvent (P : List ε → ε → Prop) (es : List ε) : Prop :=
  ∀ fs e gs, es = fs ++ e :: gs → P fs e

lemma eachEvent_nil (P : List ε → ε → Prop) : EachEvent P [] := by
  intro fs e gs h
  simp at h

lemma eachEvent_singleton {P : List ε → ε → Prop} {e : ε} (h : P [] e) : EachEvent P [e] := by
  intro fs f gs heq
  cases fs with
  | nil =>
    obtain ⟨rfl, -⟩ := List.cons.inj heq
    exact h
  | cons g fs => simp at heq

lemma EachEvent.append {P : List ε → ε → Prop} {es fs : List ε} (hes : EachEvent P es)
    (hfs : EachEvent (fun gs e => P (es ++ gs) e) fs) : EachEvent P (es ++ fs) := by
  intro gs e hs heq
  rcases List.append_eq_append_iff.mp heq with ⟨ks, rfl, hks⟩ | ⟨ks, rfl, hks⟩
  · exact hfs ks e hs hks
  · cases ks with
    | nil =>
      rw [List.append_nil] at hfs
      have h : P (gs ++ []) e := hfs [] e hs (by simpa using hks.symm)
      rwa [List.append_nil] at h
    | cons k ks =>
      obtain ⟨rfl, rfl⟩ := List.cons.inj hks
      exact hes gs e ks rfl

end CodeC.Library
