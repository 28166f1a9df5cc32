import CodeC.Proofs.PingPongMutex

/-!
# No wake-up is lost between ping and pong

A thread that is blocked on its condition variable has not been sent its number, or the other one is
still going to notify it. So the threads never stop before they have returned, and without spurious
wake-ups they take a bounded number of steps.
-/

namespace CodeC.PingPong
open Library

variable {mode : Mode} {attempts : ℕ} {s s' : State} {es : List Event}

/-- The mutex a thread holds -/
def Pc.holding (r : Role) : Pc → Option Role
  | .assigning _ => some r.other
  | .sendUnlock _ => some r.other
  | .checking _ => some r
  | .awaitUnlock _ => some r
  | _ => none

/-- The other thread is going to notify about round `i`. -/
def Pc.Notifies (i : ℕ) (p : Pc) : Prop := p = .sendUnlock i ∨ p = .notifying i

structure Alive (s : State) : Prop where
  owner : ∀ r m, s.owner m = some r ↔ (s.pc r).holding r = some m
  wakeup : ∀ r i, s.pc r = .blocked i → s.times r ≠ i ∨ (s.pc r.other).Notifies i

lemma alive_init (attempts : ℕ) : Alive (init attempts) := by
  constructor
  · intro r m
    cases r <;> simp only [init, enter] <;> split_ifs <;> simp [Pc.holding]
  · intro r i hpc
    cases r <;> simp only [init, enter] at hpc <;> split_ifs at hpc

section
variable {r m : Role} {p : Pc}

lemma Alive.owner_lock (h : Alive s) (hfree : s.owner m = none)
    (hold : (s.pc r).holding r = none) (hnew : p.holding r = some m) (r' m' : Role) :
    Function.update s.owner m (some r) m' = some r' ↔
      (Function.update s.pc r p r').holding r' = some m' := by
  have hown := h.owner r' m'
  by_cases hr : r' = r
  · subst hr
    rw [Function.update_self, hnew]
    by_cases hm : m' = m
    · rw [hm, Function.update_self]
      simp
    · rw [Function.update_of_ne hm, hown, hold]
      simp [Ne.symm hm]
  · rw [Function.update_of_ne hr]
    by_cases hm : m' = m
    · rw [hm, hfree] at hown
      rw [hm, Function.update_self, ← hown]
      simp [Ne.symm hr]
    · rw [Function.update_of_ne hm, hown]

lemma Alive.owner_unlock (h : Alive s) (hold : (s.pc r).holding r = some m)
    (hnew : p.holding r = none) (r' m' : Role) :
    Function.update s.owner m none m' = some r' ↔
      (Function.update s.pc r p r').holding r' = some m' := by
  have hown := h.owner r' m'
  by_cases hr : r' = r
  · subst hr
    rw [Function.update_self, hnew]
    by_cases hm : m' = m
    · rw [hm, Function.update_self]
      simp
    · rw [Function.update_of_ne hm, hown, hold]
      simp [Ne.symm hm]
  · rw [Function.update_of_ne hr]
    by_cases hm : m' = m
    · have howner : s.owner m = some r := (h.owner r m).mpr hold
      rw [hm, howner] at hown
      rw [hm, Function.update_self, ← hown]
      simp [Ne.symm hr]
    · rw [Function.update_of_ne hm, hown]

lemma Alive.owner_keep (h : Alive s) (heq : p.holding r = (s.pc r).holding r) (r' m' : Role) :
    s.owner m' = some r' ↔ (Function.update s.pc r p r').holding r' = some m' := by
  by_cases hr : r' = r
  · subst hr
    rw [Function.update_self, heq]
    exact h.owner r' m'
  · rw [Function.update_of_ne hr]
    exact h.owner r' m'

/-- A step of `r` to `p` under which a blocked thread is still going to be woken -/
lemma Alive.wakeup_step (h : Alive s) {times : Role → ℕ}
    (hself : ∀ i, p = .blocked i → times r ≠ i)
    (hother : ∀ i, s.pc r.other = .blocked i → s.times r.other ≠ i ∨ (s.pc r).Notifies i →
      times r.other ≠ i ∨ p.Notifies i) (r' : Role) (i : ℕ)
    (hpc : Function.update s.pc r p r' = .blocked i) :
    times r' ≠ i ∨ (Function.update s.pc r p r'.other).Notifies i := by
  by_cases hr : r' = r
  · subst hr
    rw [Function.update_self] at hpc
    exact Or.inl (hself i hpc)
  · obtain rfl := Role.eq_other_of_ne hr
    rw [Function.update_of_ne hr] at hpc
    rw [Role.other_other, Function.update_self]
    have hold := h.wakeup r.other i hpc
    rw [Role.other_other] at hold
    exact hother i hpc hold

/-- A step that neither assigns nor notifies -/
lemma Alive.wakeup_quiet (h : Alive s) (hself : ∀ i, p = .blocked i → s.times r ≠ i)
    (hold : ∀ i, ¬(s.pc r).Notifies i) (r' : Role) (i : ℕ)
    (hpc : Function.update s.pc r p r' = .blocked i) :
    s.times r' ≠ i ∨ (Function.update s.pc r p r'.other).Notifies i := by
  refine h.wakeup_step hself ?_ r' i hpc
  intro j _ hj
  exact Or.inl (hj.resolve_right (hold j))

end

lemma wake_pc_self (s : State) (r : Role) (i : ℕ) : (s.wake r).pc r ≠ .blocked i := by
  unfold State.wake
  split
  · simp [State.setPc]
  · intro h
    rename_i hne
    exact hne i h

lemma Alive.wake (h : Alive s) (r : Role) : Alive (s.wake r) := by
  unfold State.wake
  cases hpc : s.pc r with
  | blocked i =>
    constructor
    · exact h.owner_keep (by rw [hpc]; rfl)
    · refine h.wakeup_quiet (by simp) ?_
      intro j hj
      rw [hpc] at hj
      rcases hj with hj | hj <;> cases hj
  | _ => exact h

lemma Alive.thread {r : Role} (h : Alive s) (hs : thread mode attempts s r = some (s', es)) :
    Alive s' := by
  unfold PingPong.thread at hs
  cases hpc : s.pc r with
  | sendLock i =>
    simp only [hpc] at hs
    obtain ⟨hfree, rfl, rfl⟩ := lock_eq_some hs
    refine ⟨h.owner_lock hfree (by rw [hpc]; rfl) rfl, h.wakeup_quiet (by simp) ?_⟩
    simp [hpc, Pc.Notifies]
  | assigning i =>
    simp only [hpc] at hs
    obtain ⟨rfl, rfl⟩ := Prod.mk.inj (Option.some.inj hs)
    refine ⟨h.owner_keep (by rw [hpc]; rfl), h.wakeup_step (by simp) ?_⟩
    intro j _ _
    by_cases hj : i = j
    · exact Or.inr (Or.inl (by rw [hj]))
    · left
      change Function.update s.times r.other i r.other ≠ j
      rw [Function.update_self]
      exact hj
  | sendUnlock i =>
    simp only [hpc] at hs
    obtain ⟨rfl, rfl⟩ := Prod.mk.inj (Option.some.inj hs)
    refine ⟨h.owner_unlock (by rw [hpc]; rfl) rfl, h.wakeup_step (by simp) ?_⟩
    intro j _ hj
    rcases hj with hj | hj
    · exact Or.inl hj
    · rw [hpc] at hj
      rcases hj with hj | hj
      · cases hj
        exact Or.inr (Or.inr rfl)
      · cases hj
  | notifying i =>
    simp only [hpc] at hs
    obtain ⟨rfl, rfl⟩ := Prod.mk.inj (Option.some.inj hs)
    have hwake := h.wake r.other
    have hpc' : (s.wake r.other).pc r = .notifying i := (wake_pc_other s r).trans hpc
    have hholding : (notified attempts i r).holding r = none := by
      cases r with
      | ping => rfl
      | pong =>
        unfold notified enter
        dsimp only
        split_ifs <;> rfl
    refine ⟨hwake.owner_keep (by rw [hpc', hholding]; rfl), hwake.wakeup_step ?_ ?_⟩
    · intro j hj
      cases r with
      | ping => cases hj
      | pong =>
        unfold notified enter at hj
        dsimp only at hj
        split_ifs at hj
    · intro j hj
      exact absurd hj (wake_pc_self s r.other j)
  | awaitLock i =>
    simp only [hpc] at hs
    obtain ⟨hfree, rfl, rfl⟩ := lock_eq_some hs
    refine ⟨h.owner_lock hfree (by rw [hpc]; rfl) rfl, h.wakeup_quiet (by simp) ?_⟩
    simp [hpc, Pc.Notifies]
  | checking i =>
    simp only [hpc] at hs
    split_ifs at hs with hfound
    · obtain ⟨rfl, rfl⟩ := Prod.mk.inj (Option.some.inj hs)
      refine ⟨h.owner_keep (by rw [hpc]; rfl), h.wakeup_quiet (by simp) ?_⟩
      simp [hpc, Pc.Notifies]
    · cases mode with
      | wait =>
        obtain ⟨rfl, rfl⟩ := Prod.mk.inj (Option.some.inj hs)
        refine ⟨h.owner_unlock (by rw [hpc]; rfl) rfl, h.wakeup_quiet ?_ ?_⟩
        · intro j hj
          cases hj
          exact hfound
        · simp [hpc, Pc.Notifies]
      | spin =>
        obtain ⟨rfl, rfl⟩ := Prod.mk.inj (Option.some.inj hs)
        refine ⟨h.owner_unlock (by rw [hpc]; rfl) rfl, h.wakeup_quiet (by simp) ?_⟩
        simp [hpc, Pc.Notifies]
  | blocked i => simp [hpc] at hs
  | awaitUnlock i =>
    simp only [hpc] at hs
    obtain ⟨rfl, rfl⟩ := Prod.mk.inj (Option.some.inj hs)
    have hholding : (received attempts i r).holding r = none := by
      cases r with
      | ping =>
        unfold received enter
        dsimp only
        split_ifs <;> rfl
      | pong => rfl
    refine ⟨h.owner_unlock (by rw [hpc]; rfl) hholding, h.wakeup_quiet ?_ ?_⟩
    · intro j hj
      cases r with
      | ping =>
        unfold received enter at hj
        dsimp only at hj
        split_ifs at hj
      | pong => cases hj
    · simp [hpc, Pc.Notifies]
  | returned => simp [hpc] at hs

lemma Alive.step {a : Action} (h : Alive s) (hs : step mode attempts s a = some (s', es)) :
    Alive s' := by
  cases a with
  | thread r => exact h.thread hs
  | spurious r =>
    simp only [PingPong.step, spurious] at hs
    cases hpc : s.pc r with
    | blocked i =>
      simp only [hpc] at hs
      obtain ⟨rfl, rfl⟩ := Prod.mk.inj (Option.some.inj hs)
      have hwake : s.wake r = s.setPc r (.awaitLock i) := by simp only [State.wake, hpc]
      rw [← hwake]
      exact h.wake r
    | _ => simp [hpc] at hs

/-- A mutex that is held is held by a thread that can go on. -/
lemma Alive.held (h : Alive s) (mode : Mode) (attempts : ℕ) {m : Role} (hm : s.owner m ≠ none) :
    ∃ r, PingPong.thread mode attempts s r ≠ none := by
  obtain ⟨r, hr⟩ := Option.ne_none_iff_exists'.mp hm
  have hholding := (h.owner r m).mp hr
  use r
  unfold PingPong.thread
  cases hpc : s.pc r with
  | checking i =>
    dsimp only
    split_ifs
    · simp
    · cases mode <;> simp
  | _ => simp [hpc, Pc.holding] at hholding ⊢

/-- Where a thread can be that cannot go on while no mutex is held -/
lemma stopped_pc {r : Role} (hfree : ∀ m, s.owner m = none)
    (hstop : thread mode attempts s r = none) :
    s.pc r = .returned ∨ ∃ i, s.pc r = .blocked i := by
  unfold PingPong.thread at hstop
  cases hpc : s.pc r with
  | sendLock i => simp [hpc, lock, hfree] at hstop
  | awaitLock i => simp [hpc, lock, hfree] at hstop
  | checking i =>
    simp only [hpc] at hstop
    split_ifs at hstop
    cases mode <;> cases hstop
  | blocked i => exact Or.inr ⟨i, rfl⟩
  | returned => exact Or.inl rfl
  | _ => simp [hpc] at hstop

lemma not_notifies_of_stopped {p : Pc} (h : p = .returned ∨ ∃ i, p = .blocked i) (i : ℕ) :
    ¬p.Notifies i := by
  rintro (rfl | rfl) <;> simp at h

lemma Alive.stuck {r : Role} (halive : Alive s) (h : Inv attempts s)
    (hr : s.pc r = .returned ∨ ∃ i, s.pc r = .blocked i)
    (hother : s.pc r.other = .returned ∨ ∃ i, s.pc r.other = .blocked i) :
    Stuck attempts (counters attempts s) s.times r := by
  change sends attempts r (s.pc r) = attempts ∧ receives attempts r (s.pc r) = attempts ∨
    ∃ i < attempts, receives attempts r (s.pc r) = i ∧ sends attempts r (s.pc r) + r.lag = i + 1 ∧
      s.times r ≠ i
  rcases hr with hpc | ⟨i, hpc⟩
  · rw [hpc]
    exact Or.inl ⟨by cases r <;> rfl, by cases r <;> rfl⟩
  · have hin := h.inLoop r
    have hwakeup := (halive.wakeup r i hpc).resolve_right (not_notifies_of_stopped hother i)
    rw [hpc] at hin ⊢
    exact Or.inr ⟨i, hin, by cases r <;> rfl, by cases r <;> rfl, hwakeup⟩

/-- The threads stop only when both have returned. -/
lemma returned_of_stopped (h : Inv attempts s) (halive : Alive s)
    (hstop : ∀ r, thread mode attempts s r = none) : ∀ r, s.pc r = .returned := by
  have hfree : ∀ m, s.owner m = none := by
    intro m
    by_contra hm
    obtain ⟨r, hr⟩ := halive.held mode attempts hm
    exact hr (hstop r)
  have hcases := fun r => stopped_pc hfree (hstop r)
  have hall := h.ordered.receives_of_stuck fun r => halive.stuck h (hcases r) (hcases r.other)
  intro r
  rcases hcases r with hpc | ⟨i, hpc⟩
  · exact hpc
  · have hin := h.inLoop r
    have hr : receives attempts r (s.pc r) = attempts := hall r
    rw [hpc] at hin hr
    have hi : receives attempts r (.blocked i) = i := by cases r <;> rfl
    have hlt : i < attempts := hin
    omega

/-- How far into its round a thread is, in steps. Behind `notify_one` there is room for the steps
that the thread it wakes takes again. -/
def Pc.depth : Role → Pc → ℕ
  | .ping, .sendLock _ => 0
  | .ping, .assigning _ => 1
  | .ping, .sendUnlock _ => 2
  | .ping, .notifying _ => 3
  | .ping, .awaitLock _ => 6
  | .ping, .checking _ => 7
  | .ping, .blocked _ => 8
  | .ping, .awaitUnlock _ => 9
  | .pong, .awaitLock _ => 0
  | .pong, .checking _ => 1
  | .pong, .blocked _ => 2
  | .pong, .awaitUnlock _ => 3
  | .pong, .sendLock _ => 4
  | .pong, .assigning _ => 5
  | .pong, .sendUnlock _ => 6
  | .pong, .notifying _ => 7
  | _, .returned => 0

def Pc.round (attempts : ℕ) : Pc → ℕ
  | .sendLock i => i
  | .assigning i => i
  | .sendUnlock i => i
  | .notifying i => i
  | .awaitLock i => i
  | .checking i => i
  | .blocked i => i
  | .awaitUnlock i => i
  | .returned => attempts

/-- A bound on the steps a thread has before it -/
def Pc.left (attempts : ℕ) (r : Role) (p : Pc) : ℕ := 10 * (attempts - p.round attempts) - p.depth r

def State.left (attempts : ℕ) (s : State) : ℕ :=
  (s.pc .ping).left attempts .ping + (s.pc .pong).left attempts .pong

lemma Pc.depth_lt (r : Role) (p : Pc) : p.depth r < 10 := by
  cases r <;> cases p <;> simp [Pc.depth]

lemma Pc.left_lt {r : Role} {p q : Pc} (hq : q.round attempts < attempts)
    (hround : p.round attempts = q.round attempts) (hdepth : q.depth r < p.depth r) :
    p.left attempts r < q.left attempts r := by
  have hlt := Pc.depth_lt r q
  unfold Pc.left
  rw [hround]
  omega

lemma left_update {r : Role} {p : Pc} (hpc : s'.pc = Function.update s.pc r p) :
    s'.left attempts + (s.pc r).left attempts r = s.left attempts + p.left attempts r := by
  unfold State.left
  rw [hpc]
  cases r with
  | ping =>
    rw [Function.update_self, Function.update_of_ne (by decide)]
    omega
  | pong =>
    rw [Function.update_self, Function.update_of_ne (by decide)]
    omega

/-- A thread that is woken takes two steps again. -/
lemma left_wake (attempts : ℕ) (s : State) (r : Role) :
    (s.wake r).left attempts ≤ s.left attempts + 2 := by
  unfold State.wake
  cases hpc : s.pc r with
  | blocked i =>
    have hleft : (s.setPc r (.awaitLock i)).left attempts + (s.pc r).left attempts r =
        s.left attempts + (Pc.awaitLock i).left attempts r := left_update rfl
    have hpay : (Pc.awaitLock i).left attempts r ≤ (Pc.blocked i).left attempts r + 2 := by
      cases r <;> simp only [Pc.left, Pc.depth, Pc.round] <;> omega
    rw [hpc] at hleft
    dsimp only
    omega
  | _ => exact Nat.le_add_right _ 2

lemma left_notified {i : ℕ} (r : Role) (hi : i < attempts) :
    (notified attempts i r).left attempts r + 2 < (Pc.notifying i).left attempts r := by
  cases r with
  | ping =>
    simp only [notified, Pc.left, Pc.depth, Pc.round]
    omega
  | pong =>
    simp only [notified, enter]
    split_ifs <;> simp only [Pc.left, Pc.depth, Pc.round] <;> omega

lemma left_received {i : ℕ} (r : Role) (hi : i < attempts) :
    (received attempts i r).left attempts r < (Pc.awaitUnlock i).left attempts r := by
  cases r with
  | ping =>
    simp only [received, enter]
    split_ifs <;> simp only [Pc.left, Pc.depth, Pc.round] <;> omega
  | pong =>
    simp only [received, Pc.left, Pc.depth, Pc.round]
    omega

lemma left_lt {r : Role} (h : Inv attempts s) (hs : thread .wait attempts s r = some (s', es)) :
    s'.left attempts < s.left attempts := by
  have hin := h.inLoop r
  have hmove : ∀ {t : State} {p : Pc}, p.left attempts r < (s.pc r).left attempts r →
      t.pc = Function.update s.pc r p → t.left attempts < s.left attempts := by
    intro t p hp hpc
    have hleft : t.left attempts + _ = _ := left_update hpc
    omega
  unfold PingPong.thread at hs
  cases hpc : s.pc r with
  | sendLock i =>
    simp only [hpc] at hs hin
    obtain ⟨-, rfl, rfl⟩ := lock_eq_some hs
    refine hmove (p := .assigning i) ?_ rfl
    rw [hpc]
    exact Pc.left_lt hin rfl (by cases r <;> simp [Pc.depth])
  | assigning i =>
    simp only [hpc] at hs hin
    obtain ⟨rfl, rfl⟩ := Prod.mk.inj (Option.some.inj hs)
    refine hmove (p := .sendUnlock i) ?_ rfl
    rw [hpc]
    exact Pc.left_lt hin rfl (by cases r <;> simp [Pc.depth])
  | sendUnlock i =>
    simp only [hpc] at hs hin
    obtain ⟨rfl, rfl⟩ := Prod.mk.inj (Option.some.inj hs)
    refine hmove (p := .notifying i) ?_ rfl
    rw [hpc]
    exact Pc.left_lt hin rfl (by cases r <;> simp [Pc.depth])
  | notifying i =>
    simp only [hpc] at hs hin
    obtain ⟨rfl, rfl⟩ := Prod.mk.inj (Option.some.inj hs)
    have hleft : ((s.wake r.other).setPc r (notified attempts i r)).left attempts + _ = _ :=
      left_update rfl
    rw [wake_pc_other, hpc] at hleft
    have hwake := left_wake attempts s r.other
    have hpay := left_notified r hin
    omega
  | awaitLock i =>
    simp only [hpc] at hs hin
    obtain ⟨-, rfl, rfl⟩ := lock_eq_some hs
    refine hmove (p := .checking i) ?_ rfl
    rw [hpc]
    exact Pc.left_lt hin rfl (by cases r <;> simp [Pc.depth])
  | checking i =>
    simp only [hpc] at hs hin
    split_ifs at hs with hfound
    · obtain ⟨rfl, rfl⟩ := Prod.mk.inj (Option.some.inj hs)
      refine hmove (p := .awaitUnlock i) ?_ rfl
      rw [hpc]
      exact Pc.left_lt hin rfl (by cases r <;> simp [Pc.depth])
    · obtain ⟨rfl, rfl⟩ := Prod.mk.inj (Option.some.inj hs)
      refine hmove (p := .blocked i) ?_ rfl
      rw [hpc]
      exact Pc.left_lt hin rfl (by cases r <;> simp [Pc.depth])
  | blocked i => simp [hpc] at hs
  | awaitUnlock i =>
    simp only [hpc] at hs hin
    obtain ⟨rfl, rfl⟩ := Prod.mk.inj (Option.some.inj hs)
    refine hmove (p := received attempts i r) ?_ rfl
    rw [hpc]
    exact left_received r hin
  | returned => simp [hpc] at hs

lemma left_le (attempts : ℕ) (s : State) : s.left attempts ≤ 20 * attempts := by
  unfold State.left Pc.left
  omega

/-- Waiting, for every number of attempts (a `uint32_t`, up to `INT_MAX`) and from wherever they have
come, the threads take at most `20 * attempts` further steps unless they are woken spuriously, and when
neither can go on both have returned, all numbers sent and received in the order of the turns. -/
theorem waiting_threads_return (attempts : ℕ) (as bs : List Action) (t u : State)
    (es fs : List Event) (hrun : run (step .wait attempts) (init attempts) as = some (t, es))
    (hrest : run (step .wait attempts) t bs = some (u, fs))
    (hthreads : ∀ a ∈ bs, ∃ r, a = .thread r) :
    bs.length ≤ 20 * attempts ∧
      ((∀ r, thread .wait attempts u r = none) →
        (∀ r, u.pc r = .returned) ∧ es ++ fs = log (4 * attempts)) := by
  have halive : Alive u := by
    have ht := run_invariant_state (step .wait attempts) Alive
      (fun s a s' es hs hstep => hs.step hstep) (alive_init attempts) hrun
    exact run_invariant_state (step .wait attempts) Alive
      (fun s a s' es hs hstep => hs.step hstep) ht hrest
  have hwhole : run (step .wait attempts) (init attempts) (as ++ bs) = some (u, es ++ fs) :=
    (run_append_iff ..).mpr ⟨t, es, fs, hrun, hrest, rfl⟩
  obtain ⟨hinv, hlog⟩ := run_order hwhole
  constructor
  · have hlen := (run_length_le (step .wait attempts) (State.left attempts)
      (A := fun a => ∃ r, a = .thread r) (I := Inv attempts) (by
        rintro s a s' gs hs ⟨r, rfl⟩ hstep
        exact ⟨(hs.step hstep).1, left_lt hs hstep⟩) hthreads (run_order hrun).1 hrest).2
    have hle := left_le attempts t
    omega
  · intro hstop
    have hreturned := returned_of_stopped hinv halive hstop
    exact ⟨hreturned, by rw [hlog, position_of_returned hreturned]⟩

theorem waiting_threads_return_one_round : ∃ t u es fs,
    run (step .wait 1) (init 1) (oneRound.take 2) = some (t, es) ∧
    run (step .wait 1) t (oneRound.drop 2) = some (u, fs) ∧ (∀ r, thread .wait 1 u r = none) ∧
    (oneRound.drop 2).length ≤ 20 * 1 ∧
    ((∀ r, thread .wait 1 u r = none) → (∀ r, u.pc r = .returned) ∧ es ++ fs = log (4 * 1)) :=
  ⟨_, _, _, _, rfl, rfl, by intro r; cases r <;> rfl,
    waiting_threads_return 1 (oneRound.take 2) (oneRound.drop 2) _ _ _ _ rfl rfl
      (by simp [oneRound])⟩

end CodeC.PingPong
