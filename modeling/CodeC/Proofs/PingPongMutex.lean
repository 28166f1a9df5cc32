import CodeC.Proofs.PingPongTurns

/-!
# Ping-pong over mutexes and condition variables

The assignments and the checks that succeed come in the same order as the stores and loads over
atomic variables, in both modes.
-/

namespace CodeC.PingPong
open Library

variable {mode : Mode} {attempts : ℕ} {s s' : State} {es : List Event}

def sends (attempts : ℕ) : Role → Pc → ℕ
  | _, .sendLock i => i
  | _, .assigning i => i
  | _, .sendUnlock i => i + 1
  | _, .notifying i => i + 1
  | .ping, .awaitLock i => i + 1
  | .ping, .checking i => i + 1
  | .ping, .blocked i => i + 1
  | .ping, .awaitUnlock i => i + 1
  | .pong, .awaitLock i => i
  | .pong, .checking i => i
  | .pong, .blocked i => i
  | .pong, .awaitUnlock i => i
  | _, .returned => attempts

def receives (attempts : ℕ) : Role → Pc → ℕ
  | .ping, .sendLock i => i
  | .ping, .assigning i => i
  | .ping, .sendUnlock i => i
  | .ping, .notifying i => i
  | .pong, .sendLock i => i + 1
  | .pong, .assigning i => i + 1
  | .pong, .sendUnlock i => i + 1
  | .pong, .notifying i => i + 1
  | _, .awaitLock i => i
  | _, .checking i => i
  | _, .blocked i => i
  | _, .awaitUnlock i => i + 1
  | _, .returned => attempts

/-- The round a thread is in is one of the loop. -/
def Pc.InLoop (attempts : ℕ) : Pc → Prop
  | .sendLock i => i < attempts
  | .assigning i => i < attempts
  | .sendUnlock i => i < attempts
  | .notifying i => i < attempts
  | .awaitLock i => i < attempts
  | .checking i => i < attempts
  | .blocked i => i < attempts
  | .awaitUnlock i => i < attempts
  | .returned => True

def counters (attempts : ℕ) (s : State) : Counters :=
  Counters.of (sends attempts) (receives attempts) s.pc

structure Inv (attempts : ℕ) (s : State) : Prop where
  ordered : Ordered attempts (counters attempts s) s.times
  inLoop : ∀ r, (s.pc r).InLoop attempts

/-- The control point `p` comes after `q` without anything being sent or received in between. -/
structure Silent (attempts : ℕ) (r : Role) (q p : Pc) : Prop where
  sends : sends attempts r p = sends attempts r q
  receives : receives attempts r p = receives attempts r q
  inLoop : p.InLoop attempts

lemma silent_notified {i : ℕ} (r : Role) (hi : i < attempts) :
    Silent attempts r (.notifying i) (notified attempts i r) := by
  cases r with
  | ping => exact ⟨rfl, rfl, hi⟩
  | pong =>
    unfold notified enter
    dsimp only
    split_ifs with hlt
    · exact ⟨rfl, rfl, hlt⟩
    · have he : attempts = i + 1 := by omega
      exact ⟨he, he, trivial⟩

lemma silent_received {i : ℕ} (r : Role) (hi : i < attempts) :
    Silent attempts r (.awaitUnlock i) (received attempts i r) := by
  cases r with
  | ping =>
    unfold received enter
    dsimp only
    split_ifs with hlt
    · exact ⟨rfl, rfl, hlt⟩
    · have he : attempts = i + 1 := by omega
      exact ⟨he, he, trivial⟩
  | pong => exact ⟨rfl, rfl, hi⟩

lemma inLoop_update {r : Role} {p : Pc} (h : ∀ r, (s.pc r).InLoop attempts)
    (hp : p.InLoop attempts) : ∀ r', (Function.update s.pc r p r').InLoop attempts := by
  intro r'
  by_cases hr : r' = r
  · subst hr
    rw [Function.update_self]
    exact hp
  · rw [Function.update_of_ne hr]
    exact h r'

lemma Inv.silent {r : Role} {p : Pc} (h : Inv attempts s) (hp : Silent attempts r (s.pc r) p)
    (hpc : s'.pc = Function.update s.pc r p) (htimes : s'.times = s.times) :
    Inv attempts s' ∧ counters attempts s' = counters attempts s := by
  have hcount : counters attempts s' = counters attempts s := by
    unfold counters
    rw [hpc]
    exact Counters.of_silent hp.sends hp.receives
  refine ⟨⟨?_, ?_⟩, hcount⟩
  · rw [hcount, htimes]
    exact h.ordered
  · rw [hpc]
    exact inLoop_update h.inLoop hp.inLoop

lemma wake_pc_other (s : State) (r : Role) : (s.wake r.other).pc r = s.pc r := by
  unfold State.wake
  split
  · exact Function.update_of_ne (Role.other_ne r).symm ..
  · rfl

lemma Inv.wake (h : Inv attempts s) (r : Role) :
    Inv attempts (s.wake r) ∧ counters attempts (s.wake r) = counters attempts s := by
  unfold State.wake
  cases hpc : s.pc r with
  | blocked i =>
    have hin := h.inLoop r
    rw [hpc] at hin
    refine h.silent (r := r) (p := .awaitLock i) ?_ rfl rfl
    rw [hpc]
    exact ⟨by cases r <;> rfl, by cases r <;> rfl, hin⟩
  | _ => exact ⟨h, rfl⟩

lemma lock_eq_some {r m : Role} {p : Pc} (h : lock s r m p = some (s', es)) :
    s.owner m = none ∧ es = [] ∧
      s' = { s with owner := Function.update s.owner m (some r) }.setPc r p := by
  unfold lock at h
  split_ifs at h with hfree
  obtain ⟨rfl, rfl⟩ := Prod.mk.inj (Option.some.inj h)
  exact ⟨hfree, rfl, rfl⟩

lemma Inv.thread {r : Role} (h : Inv attempts s) (hs : thread mode attempts s r = some (s', es)) :
    Inv attempts s' ∧
      log (counters attempts s').position = log (counters attempts s).position ++ es := by
  have hin := h.inLoop r
  have hsilent : ∀ {t : State} {p : Pc}, Silent attempts r (s.pc r) p →
      t.pc = Function.update s.pc r p → t.times = s.times → Inv attempts t ∧
      log (counters attempts t).position = log (counters attempts s).position ++ [] := by
    intro t p hp hpc htimes
    obtain ⟨hinv, hcount⟩ := h.silent hp hpc htimes
    exact ⟨hinv, by rw [hcount, List.append_nil]⟩
  unfold PingPong.thread at hs
  cases hpc : s.pc r with
  | sendLock i =>
    simp only [hpc] at hs hin
    obtain ⟨-, rfl, rfl⟩ := lock_eq_some hs
    refine hsilent ?_ rfl rfl
    rw [hpc]
    exact ⟨by cases r <;> rfl, by cases r <;> rfl, hin⟩
  | assigning i =>
    simp only [hpc] at hs hin
    obtain ⟨rfl, rfl⟩ := Prod.mk.inj (Option.some.inj hs)
    obtain ⟨hordered, hlog⟩ := h.ordered.sent (i := i) (r := r)
      (by change sends attempts r (s.pc r) = i; rw [hpc]; cases r <;> rfl)
      (by change receives attempts r (s.pc r) = _; rw [hpc]; cases r <;> rfl)
    have hreceives : receives attempts r (.sendUnlock i) = receives attempts r (s.pc r) := by
      rw [hpc]
      cases r <;> rfl
    have hsends : sends attempts r (.sendUnlock i) = i + 1 := by cases r <;> rfl
    unfold counters at hordered hlog
    rw [← Counters.of_sent hsends hreceives] at hordered hlog
    exact ⟨⟨hordered, inLoop_update h.inLoop hin⟩, hlog⟩
  | sendUnlock i =>
    simp only [hpc] at hs hin
    obtain ⟨rfl, rfl⟩ := Prod.mk.inj (Option.some.inj hs)
    refine hsilent ?_ rfl rfl
    rw [hpc]
    exact ⟨by cases r <;> rfl, by cases r <;> rfl, hin⟩
  | notifying i =>
    simp only [hpc] at hs hin
    obtain ⟨rfl, rfl⟩ := Prod.mk.inj (Option.some.inj hs)
    obtain ⟨hwake, hcount⟩ := h.wake r.other
    have hpc' : (s.wake r.other).pc r = .notifying i := (wake_pc_other s r).trans hpc
    have hp : Silent attempts r ((s.wake r.other).pc r) (notified attempts i r) := by
      rw [hpc']
      exact silent_notified r hin
    have hnew : Inv attempts ((s.wake r.other).setPc r (notified attempts i r)) ∧ counters attempts
        ((s.wake r.other).setPc r (notified attempts i r)) = counters attempts (s.wake r.other) :=
      hwake.silent hp rfl rfl
    exact ⟨hnew.1, by rw [hnew.2, hcount, List.append_nil]⟩
  | awaitLock i =>
    simp only [hpc] at hs hin
    obtain ⟨-, rfl, rfl⟩ := lock_eq_some hs
    refine hsilent ?_ rfl rfl
    rw [hpc]
    exact ⟨by cases r <;> rfl, by cases r <;> rfl, hin⟩
  | checking i =>
    simp only [hpc] at hs hin
    split_ifs at hs with hfound
    · obtain ⟨rfl, rfl⟩ := Prod.mk.inj (Option.some.inj hs)
      obtain ⟨hordered, hlog⟩ := h.ordered.received (i := i) (r := r)
        (by change receives attempts r (s.pc r) = i; rw [hpc]; cases r <;> rfl)
        (by change sends attempts r (s.pc r) + _ = _; rw [hpc]; cases r <;> rfl) hfound hin
      have hsends : sends attempts r (.awaitUnlock i) = sends attempts r (s.pc r) := by
        rw [hpc]
        cases r <;> rfl
      have hreceives : receives attempts r (.awaitUnlock i) = i + 1 := by cases r <;> rfl
      unfold counters at hordered hlog
      rw [← Counters.of_received hsends hreceives] at hordered hlog
      exact ⟨⟨hordered, inLoop_update h.inLoop hin⟩, hlog⟩
    · cases mode with
      | wait =>
        obtain ⟨rfl, rfl⟩ := Prod.mk.inj (Option.some.inj hs)
        refine hsilent ?_ rfl rfl
        rw [hpc]
        exact ⟨by cases r <;> rfl, by cases r <;> rfl, hin⟩
      | spin =>
        obtain ⟨rfl, rfl⟩ := Prod.mk.inj (Option.some.inj hs)
        refine hsilent ?_ rfl rfl
        rw [hpc]
        exact ⟨by cases r <;> rfl, by cases r <;> rfl, hin⟩
  | blocked i => simp [hpc] at hs
  | awaitUnlock i =>
    simp only [hpc] at hs hin
    obtain ⟨rfl, rfl⟩ := Prod.mk.inj (Option.some.inj hs)
    refine hsilent ?_ rfl rfl
    rw [hpc]
    exact silent_received r hin
  | returned => simp [hpc] at hs

lemma Inv.step {a : Action} (h : Inv attempts s) (hs : step mode attempts s a = some (s', es)) :
    Inv attempts s' ∧
      log (counters attempts s').position = log (counters attempts s).position ++ es := by
  cases a with
  | thread r => exact h.thread hs
  | spurious r =>
    simp only [PingPong.step, spurious] at hs
    cases hpc : s.pc r with
    | blocked i =>
      simp only [hpc] at hs
      obtain ⟨rfl, rfl⟩ := Prod.mk.inj (Option.some.inj hs)
      have hwake : s.wake r = s.setPc r (.awaitLock i) := by simp only [State.wake, hpc]
      obtain ⟨hinv, hcount⟩ := h.wake r
      rw [hwake] at hinv hcount
      exact ⟨hinv, by rw [hcount, List.append_nil]⟩
    | _ => simp [hpc] at hs

lemma counters_init (attempts : ℕ) : counters attempts (init attempts) = ⟨fun _ => 0, fun _ => 0⟩ := by
  unfold counters Counters.of
  congr 1 <;> funext r <;> cases r <;> simp only [init, enter] <;> split_ifs <;>
    first | rfl | (change attempts = 0; omega)

lemma inv_init (attempts : ℕ) : Inv attempts (init attempts) := by
  constructor
  · rw [counters_init]
    exact ordered_start attempts
  · intro r
    cases r <;> simp only [init, enter] <;> split_ifs with h <;> first | exact h | trivial

lemma sends_le {p : Pc} (r : Role) (h : p.InLoop attempts) : sends attempts r p ≤ attempts := by
  cases p <;> cases r <;> simp only [sends, Pc.InLoop] at * <;> omega

lemma receives_le {p : Pc} (r : Role) (h : p.InLoop attempts) : receives attempts r p ≤ attempts := by
  cases p <;> cases r <;> simp only [receives, Pc.InLoop] at * <;> omega

lemma Inv.position_le (h : Inv attempts s) : (counters attempts s).position ≤ 4 * attempts := by
  have h1 := sends_le .ping (h.inLoop .ping)
  have h2 := sends_le .pong (h.inLoop .pong)
  have h3 := receives_le .ping (h.inLoop .ping)
  have h4 := receives_le .pong (h.inLoop .pong)
  change sends attempts .ping _ + receives attempts .pong _ + sends attempts .pong _ +
    receives attempts .ping _ ≤ 4 * attempts
  omega

/-- What has happened in a run is what comes first in the order of the turns. -/
lemma run_order {as : List Action} {t : State}
    (hrun : run (step mode attempts) (init attempts) as = some (t, es)) :
    Inv attempts t ∧ es = log (counters attempts t).position := by
  refine run_invariant_events (step mode attempts)
    (fun s g => Inv attempts s ∧ g = log (counters attempts s).position) ?_ ?_ hrun
  · intro s g a s' es hs hstep
    obtain ⟨hinv, hlog⟩ := hs.1.step hstep
    exact ⟨hinv, by rw [hlog, ← hs.2]⟩
  · refine ⟨inv_init attempts, ?_⟩
    rw [counters_init]
    rfl

lemma position_of_returned (h : ∀ r, s.pc r = .returned) :
    (counters attempts s).position = 4 * attempts := by
  change sends attempts .ping _ + receives attempts .pong _ + sends attempts .pong _ +
    receives attempts .ping _ = 4 * attempts
  rw [h .ping, h .pong]
  change attempts + attempts + attempts + attempts = 4 * attempts
  omega

/-- Waiting or spinning, for every number of attempts (a `uint32_t`, up to `INT_MAX`) and whatever the
interleaving and the spurious wake-ups, the assignments and the checks that succeed come in the order of
the turns, and both threads return with the last one. -/
theorem mutexes_take_turns (mode : Mode) (attempts : ℕ) (as : List Action) (t : State)
    (es : List Event) (hrun : run (step mode attempts) (init attempts) as = some (t, es)) :
    es = log es.length ∧ es.length ≤ 4 * attempts ∧
      ((∀ r, t.pc r = .returned) → es = log (4 * attempts)) := by
  obtain ⟨hinv, hes⟩ := run_order hrun
  have hlen : es.length = (counters attempts t).position := by rw [hes, length_log]
  refine ⟨by rw [hlen, hes], ?_, ?_⟩
  · rw [hlen]
    exact hinv.position_le
  · intro hreturned
    rw [hes, position_of_returned hreturned]

/-- One round in which `pong` waits before `ping` has sent -/
def oneRound : List Action :=
  [.thread .pong, .thread .pong, .thread .ping, .thread .ping, .thread .ping, .thread .ping,
    .thread .ping, .thread .ping, .thread .pong, .thread .pong, .thread .pong, .thread .pong,
    .thread .pong, .thread .pong, .thread .pong, .thread .ping, .thread .ping, .thread .ping]

theorem mutexes_take_turns_one_round : ∃ t es, run (step .wait 1) (init 1) oneRound = some (t, es) ∧
    (∀ r, t.pc r = .returned) ∧ es = log es.length ∧ es.length ≤ 4 * 1 ∧
    ((∀ r, t.pc r = .returned) → es = log (4 * 1)) :=
  ⟨_, _, rfl, by intro r; cases r <;> rfl, mutexes_take_turns .wait 1 oneRound _ _ rfl⟩

end CodeC.PingPong
