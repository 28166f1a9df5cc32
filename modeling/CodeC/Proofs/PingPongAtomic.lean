import CodeC.Proofs.PingPongTurns

/-!
# Ping-pong over atomic variables

Every interleaving does the same things in the same order, and as long as a thread has not returned,
one of the two can do more than load in vain.
-/

namespace CodeC.PingPong.Atomic
open Library

variable {attempts : ℕ} {s s' : State} {es : List Event}

def sends (attempts : ℕ) : Role → Pc → ℕ
  | _, .storing i => i
  | .ping, .loading i => i + 1
  | .pong, .loading i => i
  | _, .returned => attempts

def receives (attempts : ℕ) : Role → Pc → ℕ
  | .ping, .storing i => i
  | .pong, .storing i => i + 1
  | _, .loading i => i
  | _, .returned => attempts

def counters (attempts : ℕ) (s : State) : Counters :=
  Counters.of (sends attempts) (receives attempts) s.pc

/-- The round a thread is in is one of the loop. -/
def Pc.InLoop (attempts : ℕ) : Pc → Prop
  | .storing i => i < attempts
  | .loading i => i < attempts
  | .returned => True

structure Inv (attempts : ℕ) (s : State) : Prop where
  ordered : Ordered attempts (counters attempts s) s.value
  inLoop : ∀ r, (s.pc r).InLoop attempts

lemma sends_stored {i : ℕ} (r : Role) (hi : i < attempts) :
    sends attempts r (stored attempts i r) = i + 1 ∧
      receives attempts r (stored attempts i r) = receives attempts r (.storing i) ∧
      (stored attempts i r).InLoop attempts := by
  cases r with
  | ping => exact ⟨rfl, rfl, hi⟩
  | pong =>
    unfold stored enter
    dsimp only
    split_ifs with hlt
    · exact ⟨rfl, rfl, hlt⟩
    · have he : attempts = i + 1 := by omega
      exact ⟨he, he, trivial⟩

lemma receives_loaded {i : ℕ} (r : Role) (hi : i < attempts) :
    receives attempts r (loaded attempts i r) = i + 1 ∧
      sends attempts r (loaded attempts i r) = sends attempts r (.loading i) ∧
      (loaded attempts i r).InLoop attempts := by
  cases r with
  | ping =>
    unfold loaded enter
    dsimp only
    split_ifs with hlt
    · exact ⟨rfl, rfl, hlt⟩
    · have he : attempts = i + 1 := by omega
      exact ⟨he, he, trivial⟩
  | pong => exact ⟨rfl, rfl, hi⟩

lemma inLoop_update {r : Role} {pc : Pc} (h : ∀ r, (s.pc r).InLoop attempts)
    (hpc : pc.InLoop attempts) : ∀ r', (Function.update s.pc r pc r').InLoop attempts := by
  intro r'
  by_cases hr : r' = r
  · subst hr
    rw [Function.update_self]
    exact hpc
  · rw [Function.update_of_ne hr]
    exact h r'

lemma Inv.step {r : Role} (h : Inv attempts s) (hs : step attempts s r = some (s', es)) :
    Inv attempts s' ∧
      log (counters attempts s').position = log (counters attempts s).position ++ es := by
  have hin := h.inLoop r
  unfold Atomic.step at hs
  cases hpc : s.pc r with
  | storing i =>
    simp only [hpc] at hs
    obtain ⟨rfl, rfl⟩ := Prod.mk.inj (Option.some.inj hs)
    rw [hpc] at hin
    obtain ⟨hsends, hreceives, hloop⟩ := sends_stored r hin
    rw [← hpc] at hreceives
    obtain ⟨hordered, hlog⟩ := h.ordered.sent (i := i) (r := r)
      (by change sends attempts r (s.pc r) = i; rw [hpc]; cases r <;> rfl)
      (by change receives attempts r (s.pc r) = _; rw [hpc]; cases r <;> rfl)
    unfold counters at hordered hlog
    rw [← Counters.of_sent hsends hreceives] at hordered hlog
    exact ⟨⟨hordered, inLoop_update h.inLoop hloop⟩, hlog⟩
  | loading i =>
    simp only [hpc] at hs
    rw [hpc] at hin
    split_ifs at hs with hfound
    · obtain ⟨rfl, rfl⟩ := Prod.mk.inj (Option.some.inj hs)
      obtain ⟨hreceives, hsends, hloop⟩ := receives_loaded r hin
      rw [← hpc] at hsends
      obtain ⟨hordered, hlog⟩ := h.ordered.received (i := i) (r := r)
        (by change receives attempts r (s.pc r) = i; rw [hpc]; cases r <;> rfl)
        (by change sends attempts r (s.pc r) + _ = _; rw [hpc]; cases r <;> rfl) hfound hin
      unfold counters at hordered hlog
      rw [← Counters.of_received hsends hreceives] at hordered hlog
      exact ⟨⟨hordered, inLoop_update h.inLoop hloop⟩, hlog⟩
    · obtain ⟨rfl, rfl⟩ := Prod.mk.inj (Option.some.inj hs)
      exact ⟨h, (List.append_nil _).symm⟩
  | returned => simp [hpc] at hs

lemma counters_init (attempts : ℕ) : counters attempts (init attempts) = ⟨fun _ => 0, fun _ => 0⟩ := by
  unfold counters Counters.of
  congr 1 <;> funext r <;> cases r <;> simp only [init, enter] <;> split_ifs <;>
    first | rfl | (change attempts = 0; omega)

lemma inv_init (attempts : ℕ) : Inv attempts (init attempts) := by
  constructor
  · rw [counters_init]
    exact ordered_start attempts
  · intro r
    cases r <;> simp only [init, enter] <;> split_ifs with h <;> first | exact h | trivial

lemma sends_le {pc : Pc} (r : Role) (h : pc.InLoop attempts) : sends attempts r pc ≤ attempts := by
  cases pc <;> cases r <;> simp only [sends, Pc.InLoop] at * <;> omega

lemma receives_le {pc : Pc} (r : Role) (h : pc.InLoop attempts) :
    receives attempts r pc ≤ attempts := by
  cases pc <;> cases r <;> simp only [receives, Pc.InLoop] at * <;> omega

lemma Inv.position_le (h : Inv attempts s) : (counters attempts s).position ≤ 4 * attempts := by
  have h1 := sends_le .ping (h.inLoop .ping)
  have h2 := sends_le .pong (h.inLoop .pong)
  have h3 := receives_le .ping (h.inLoop .ping)
  have h4 := receives_le .pong (h.inLoop .pong)
  change sends attempts .ping _ + receives attempts .pong _ + sends attempts .pong _ +
    receives attempts .ping _ ≤ 4 * attempts
  omega

/-- One of the threads can store, or finds what it waits for. -/
lemma Inv.progress (h : Inv attempts s) (hr : ∃ r, s.pc r ≠ .returned) :
    ∃ r s' e, Atomic.step attempts s r = some (s', [e]) := by
  by_contra hnone
  have hcases : ∀ r, s.pc r = .returned ∨ ∃ i < attempts, s.pc r = .loading i ∧ s.value r ≠ i := by
    intro r
    have hin := h.inLoop r
    cases hpc : s.pc r with
    | storing i =>
      have hstep : Atomic.step attempts s r = some (⟨Function.update s.value r.other i,
          Function.update s.pc r (stored attempts i r)⟩, [.sent r i]) := by
        simp only [Atomic.step, hpc]
      exact absurd ⟨r, _, _, hstep⟩ hnone
    | loading i =>
      rw [hpc] at hin
      refine Or.inr ⟨i, hin, rfl, fun hv => ?_⟩
      have hstep : Atomic.step attempts s r = some ({ s with
          pc := Function.update s.pc r (loaded attempts i r) }, [.received r i]) := by
        simp only [Atomic.step, hpc, hv, if_true]
      exact hnone ⟨r, _, _, hstep⟩
    | returned => exact Or.inl rfl
  have hstuck : ∀ r, Stuck attempts (counters attempts s) s.value r := by
    intro r
    change sends attempts r (s.pc r) = attempts ∧ receives attempts r (s.pc r) = attempts ∨
      ∃ i < attempts, receives attempts r (s.pc r) = i ∧ sends attempts r (s.pc r) + r.lag = i + 1 ∧
        s.value r ≠ i
    rcases hcases r with hpc | ⟨i, hi, hpc, hv⟩
    · rw [hpc]
      exact Or.inl ⟨by cases r <;> rfl, by cases r <;> rfl⟩
    · rw [hpc]
      exact Or.inr ⟨i, hi, by cases r <;> rfl, by cases r <;> rfl, hv⟩
  obtain ⟨r, hne⟩ := hr
  have hall : receives attempts r (s.pc r) = attempts := h.ordered.receives_of_stuck hstuck r
  rcases hcases r with hpc | ⟨i, hi, hpc, -⟩
  · exact hne hpc
  · rw [hpc] at hall
    have hi' : receives attempts r (.loading i) = i := by cases r <;> rfl
    omega

/-- For every number of attempts (a `uint32_t`, up to `INT_MAX`) and whatever the interleaving, `ping` and
`pong` take turns: the stores and the successful loads so far are the first ones of the same sequence,
and there are `4 * attempts` of them when both threads have returned. Until then one of the two can take
such a step. -/
theorem atomics_take_turns (attempts : ℕ) (as : List Role) (t : State) (es : List Event)
    (hrun : run (step attempts) (init attempts) as = some (t, es)) :
    es = log es.length ∧ es.length ≤ 4 * attempts ∧
      ((∀ r, t.pc r = .returned) → es = log (4 * attempts)) ∧
      ((∃ r, t.pc r ≠ .returned) → ∃ r t' e, step attempts t r = some (t', [e])) := by
  have hstart : ([] : List Event) = log (counters attempts (init attempts)).position := by
    rw [counters_init]
    rfl
  obtain ⟨hinv, hes⟩ := run_invariant_events (step attempts)
    (fun s g => Inv attempts s ∧ g = log (counters attempts s).position)
    (fun s g r s' es hs hstep => by
      obtain ⟨hinv, hlog⟩ := hs.1.step hstep
      exact ⟨hinv, by rw [hlog, ← hs.2]⟩) ⟨inv_init attempts, hstart⟩ hrun
  have hlen : es.length = (counters attempts t).position := by rw [hes, length_log]
  refine ⟨by rw [hlen, hes], ?_, ?_, hinv.progress⟩
  · rw [hlen]
    exact hinv.position_le
  · intro hreturned
    have hpos : (counters attempts t).position = 4 * attempts := by
      change sends attempts .ping _ + receives attempts .pong _ + sends attempts .pong _ +
        receives attempts .ping _ = 4 * attempts
      rw [hreturned .ping, hreturned .pong]
      change attempts + attempts + attempts + attempts = 4 * attempts
      omega
    rw [hes, hpos]

/-- Two rounds, with loads in vain -/
theorem atomics_take_turns_two_rounds : ∃ t es,
    run (step 2) (init 2) [.pong, .ping, .ping, .pong, .pong, .ping, .ping, .pong, .pong, .ping] =
      some (t, es) ∧ (∀ r, t.pc r = .returned) ∧ es = log 8 ∧
    es = log es.length ∧ es.length ≤ 4 * 2 ∧ ((∀ r, t.pc r = .returned) → es = log (4 * 2)) ∧
    ((∃ r, t.pc r ≠ .returned) → ∃ r t' e, step 2 t r = some (t', [e])) :=
  ⟨_, _, rfl, by intro r; cases r <;> rfl, by decide, atomics_take_turns 2
    [.pong, .ping, .ping, .pong, .pong, .ping, .ping, .pong, .pong, .ping] _ _ rfl⟩

end CodeC.PingPong.Atomic
