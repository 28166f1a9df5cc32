import CodeC.Library.Run
import Mathlib.Data.Set.Basic

/-!
# Traces of visible events and weak simulation

An observer of a system sees some of the events its runs emit. One system simulates another when
it can answer every step by a run with the same visible events. The traces of the simulated
system are then among its own.
-/

namespace CodeC.Library

variable {σ τ α β ε δ ν : Type}

/-- The sequences of visible events that the runs of the system emit. -/
def traces (step : σ → α → Option (σ × List ε)) (visible : ε → Option ν) (s : σ) :
    Set (List ν) :=
  {tr | ∃ as t es, run step s as = some (t, es) ∧ es.filterMap visible = tr}

/-- The second system answers the step with a run that shows the same and keeps the relation. -/
def Answers (step' : τ → β → Option (τ × List δ)) (visible : ε → Option ν) (visible' : δ → Option ν)
    (R : σ → τ → Prop) (t : τ) (s' : σ) (es : List ε) : Prop :=
  ∃ bs t' fs, run step' t bs = some (t', fs) ∧ fs.filterMap visible' = es.filterMap visible ∧ R s' t'

section answers

variable {step' : τ → β → Option (τ × List δ)} {visible : ε → Option ν} {visible' : δ → Option ν}
  {R : σ → τ → Prop} {t t' u : τ} {s' : σ} {es : List ε} {e f : List δ} {b c : β}

lemma answers_stay (hshow : es.filterMap visible = []) (h : R s' t) :
    Answers step' visible visible' R t s' es :=
  ⟨[], t, [], rfl, by simp [hshow], h⟩

lemma answers_step (hb : step' t b = some (t', e))
    (hshow : e.filterMap visible' = es.filterMap visible) (h : R s' t') :
    Answers step' visible visible' R t s' es := by
  refine ⟨[b], t', e, ?_, hshow, h⟩
  rw [run_cons_iff]
  exact ⟨t', e, [], hb, rfl, by simp⟩

lemma answers_two_steps (hb : step' t b = some (u, e)) (hc : step' u c = some (t', f))
    (hshow : (e ++ f).filterMap visible' = es.filterMap visible) (h : R s' t') :
    Answers step' visible visible' R t s' es := by
  refine ⟨[b, c], t', e ++ f, ?_, hshow, h⟩
  rw [run_cons_iff]
  refine ⟨u, e, f, hb, ?_, rfl⟩
  rw [run_cons_iff]
  exact ⟨t', f, [], hc, rfl, by simp⟩

end answers

variable {step : σ → α → Option (σ × List ε)} {step' : τ → β → Option (τ × List δ)}
  {visible : ε → Option ν} {visible' : δ → Option ν} {R : σ → τ → Prop}

/-- When every step is answered, every run is. -/
theorem run_answers
    (hstep : ∀ s t a s' es, R s t → step s a = some (s', es) →
      Answers step' visible visible' R t s' es)
    {s s' : σ} {t : τ} {as : List α} {es : List ε} (h : R s t)
    (hrun : run step s as = some (s', es)) : Answers step' visible visible' R t s' es := by
  induction as generalizing s t es with
  | nil =>
    simp only [run_nil, Option.some.injEq, Prod.mk.injEq] at hrun
    obtain ⟨rfl, rfl⟩ := hrun
    exact answers_stay rfl h
  | cons a as ih =>
    obtain ⟨u, e, f, hu, hr, rfl⟩ := (run_cons_iff step s s' a as es).mp hrun
    obtain ⟨bs, v, fs, hbs, hshow, hR⟩ := hstep s t a u e h hu
    obtain ⟨cs, t', gs, hcs, hshow', hR'⟩ := ih hR hr
    refine ⟨bs ++ cs, t', fs ++ gs, ?_, ?_, hR'⟩
    · rw [run_append_iff]
      exact ⟨v, fs, gs, hbs, hcs, rfl⟩
    · rw [List.filterMap_append, List.filterMap_append, hshow, hshow']

theorem traces_subset
    (hstep : ∀ s t a s' es, R s t → step s a = some (s', es) →
      Answers step' visible visible' R t s' es)
    {s : σ} {t : τ} (h : R s t) : traces step visible s ⊆ traces step' visible' t := by
  rintro tr ⟨as, s', es, hrun, rfl⟩
  obtain ⟨bs, t', fs, hbs, hshow, -⟩ := run_answers hstep h hrun
  exact ⟨bs, t', fs, hbs, hshow⟩

end CodeC.Library
