import Mathlib.Data.List.Basic

/-!
# While loops

A loop runs its body round by round until the body leaves it. The fuel bounds the number of
rounds; an invariant and a number that falls in every round show that the loop is left in time.
-/

namespace CodeC.Library

variable {σ ρ : Type}

/-- What a round comes to: another round from a new state, or the result of the loop. -/
inductive Round (σ ρ : Type) where
  | again (s : σ)
  | leave (r : ρ)
  deriving DecidableEq

/-- The loop, with `none` when the fuel runs out. -/
def loop (body : σ → Round σ ρ) : ℕ → σ → Option ρ
  | 0, _ => none
  | fuel + 1, s =>
    match body s with
    | .again s => loop body fuel s
    | .leave r => some r

/-- Total correctness of a loop from an invariant `I`, whose number falls in every round. -/
theorem loop_total {body : σ → Round σ ρ} {I : ℕ → σ → Prop} {P : ρ → Prop}
    (hagain : ∀ m s s', I m s → body s = .again s' → ∃ k, k < m ∧ I k s')
    (hleave : ∀ m s r, I m s → body s = .leave r → P r) {m : ℕ} {s : σ} (hs : I m s) :
    ∃ r, P r ∧ ∀ fuel, m < fuel → loop body fuel s = some r := by
  induction m using Nat.strongRecOn generalizing s with
  | ind m ih =>
    cases hbody : body s with
    | leave r =>
      refine ⟨r, hleave m s r hs hbody, fun fuel hfuel => ?_⟩
      obtain ⟨k, rfl⟩ : ∃ k, fuel = k + 1 := ⟨fuel - 1, by omega⟩
      rw [loop, hbody]
    | again s' =>
      obtain ⟨k, hk, hs'⟩ := hagain m s s' hs hbody
      obtain ⟨r, hr, hloop⟩ := ih k hk hs'
      refine ⟨r, hr, fun fuel hfuel => ?_⟩
      obtain ⟨j, rfl⟩ : ∃ j, fuel = j + 1 := ⟨fuel - 1, by omega⟩
      rw [loop, hbody]
      exact hloop j (by omega)

/-- Partial correctness of a loop from an invariant. -/
theorem loop_result {body : σ → Round σ ρ} {I : σ → Prop} {P : ρ → Prop}
    (hagain : ∀ s s', I s → body s = .again s' → I s')
    (hleave : ∀ s r, I s → body s = .leave r → P r) {fuel : ℕ} {s : σ} {r : ρ} (hs : I s)
    (h : loop body fuel s = some r) : P r := by
  induction fuel generalizing s with
  | zero => cases h
  | succ fuel ih =>
    rw [loop] at h
    cases hbody : body s with
    | again s' =>
      rw [hbody] at h
      exact ih (hagain s s' hs hbody) h
    | leave r' =>
      rw [hbody] at h
      obtain rfl := Option.some.inj h
      exact hleave s r' hs hbody

/-- The states that a loop comes to from `s`. -/
inductive Rounds (body : σ → Round σ ρ) (s : σ) : σ → Prop
  | refl : Rounds body s s
  | step {t u : σ} (h : Rounds body s t) (hbody : body t = .again u) : Rounds body s u

/-- From every state that it comes to, the loop has the same result. -/
lemma Rounds.loop_eq {body : σ → Round σ ρ} {s t : σ} (h : Rounds body s t) {fuel : ℕ} {r : ρ}
    (hloop : loop body fuel s = some r) : ∃ fuel', loop body fuel' t = some r := by
  induction h with
  | refl => exact ⟨fuel, hloop⟩
  | step h hbody ih =>
    obtain ⟨fuel', hfuel⟩ := ih
    cases fuel' with
    | zero => cases hfuel
    | succ k =>
      rw [loop, hbody] at hfuel
      exact ⟨k, hfuel⟩

/-- A counted loop whose rounds all succeed and keep an invariant -/
theorem foldlM_range'_total {f : σ → ℕ → Option σ} {I : ℕ → σ → Prop} {i n : ℕ}
    (hround : ∀ j s, i ≤ j → j < i + n → I j s → ∃ s', f s j = some s' ∧ I (j + 1) s') {s : σ}
    (hs : I i s) : ∃ s', (List.range' i n).foldlM f s = some s' ∧ I (i + n) s' := by
  induction n generalizing i s with
  | zero => exact ⟨s, rfl, hs⟩
  | succ n ih =>
    obtain ⟨s', hf, hs'⟩ := hround i s (Nat.le_refl i) (by omega) hs
    obtain ⟨s'', hfold, hs''⟩ := ih (fun j t hj hjn => hround j t (by omega) (by omega)) hs'
    refine ⟨s'', ?_, ?_⟩
    · rw [List.range'_succ, List.foldlM_cons, hf]
      exact hfold
    · have hadd : i + (n + 1) = i + 1 + n := by omega
      rwa [hadd]

variable {τ κ : Type}

/-- Two rounds go on from related states, or end with related results. -/
inductive Round.Rel (R : σ → τ → Prop) (Q : ρ → κ → Prop) : Round σ ρ → Round τ κ → Prop
  | again {s : σ} {t : τ} (h : R s t) : Round.Rel R Q (.again s) (.again t)
  | leave {a : ρ} {b : κ} (h : Q a b) : Round.Rel R Q (.leave a) (.leave b)

/-- When the rounds are related, the loops end with related results. -/
theorem loop_simulation {f : σ → Round σ ρ} {g : τ → Round τ κ} {R : σ → τ → Prop}
    {Q : ρ → κ → Prop} (hround : ∀ s t, R s t → Round.Rel R Q (f s) (g t)) {fuel : ℕ} {s : σ}
    {t : τ} {b : κ} (hst : R s t) (h : loop g fuel t = some b) :
    ∃ a, loop f fuel s = some a ∧ Q a b := by
  induction fuel generalizing s t with
  | zero => cases h
  | succ fuel ih =>
    have hrel := hround s t hst
    rw [loop] at h ⊢
    generalize f s = x at hrel ⊢
    generalize g t = y at hrel h
    cases hrel with
    | again hst' => exact ih hst' h
    | leave hab =>
      obtain rfl := Option.some.inj h
      exact ⟨_, rfl, hab⟩

end CodeC.Library
