import CodeC.PingPong
import Mathlib.Data.List.Basic

/-!
# Whose turn it is

In each round `ping` sends, `pong` receives and sends back, and `ping` receives. The four counters
bound one another, so that what has happened so far is determined by how much has happened: it is
`log k` for the sum `k` of the counters.
-/

namespace CodeC.PingPong

/-- What happens at position `k` -/
def turn (k : ℕ) : Event :=
  if k % 4 = 0 then .sent .ping (k / 4)
  else if k % 4 = 1 then .received .pong (k / 4)
  else if k % 4 = 2 then .sent .pong (k / 4)
  else .received .ping (k / 4)

def log (k : ℕ) : List Event := (List.range k).map turn

lemma log_succ (k : ℕ) : log (k + 1) = log k ++ [turn k] := by
  unfold log
  rw [List.range_succ, List.map_append]
  rfl

lemma length_log (k : ℕ) : (log k).length = k := by simp [log]

/-- How often each thread has sent and received -/
structure Counters where
  sends : Role → ℕ
  receives : Role → ℕ

structure Counters.InTurn (c : Counters) : Prop where
  ping_receives : c.receives .ping ≤ c.sends .pong
  pong_sends : c.sends .pong ≤ c.receives .pong
  pong_receives : c.receives .pong ≤ c.sends .ping
  ping_sends : c.sends .ping ≤ c.receives .ping + 1

def Counters.position (c : Counters) : ℕ :=
  c.sends .ping + c.receives .pong + c.sends .pong + c.receives .ping

/-- Of the two halves of a round `ping` has the first one. -/
def Role.lag : Role → ℕ
  | .ping => 0
  | .pong => 1

lemma turn_eq {k : ℕ} (i m : ℕ) (hk : k = 4 * i + m) (hm : m < 4) :
    turn k = if m = 0 then .sent .ping i else if m = 1 then .received .pong i
      else if m = 2 then .sent .pong i else .received .ping i := by
  unfold turn
  rw [show k % 4 = m by omega, show k / 4 = i by omega]

/-- One position on, with what happens there -/
lemma log_advance {k k' : ℕ} (i m : ℕ) (hk' : k' = k + 1) (hk : k = 4 * i + m) (hm : m < 4) :
    log k' = log k ++ [if m = 0 then .sent .ping i else if m = 1 then .received .pong i
      else if m = 2 then .sent .pong i else .received .ping i] := by
  rw [hk', log_succ, turn_eq i m hk hm]

/-- What a thread finds that has been sent `k` numbers, and `attempts` before the first one -/
def lastSent (attempts : ℕ) : ℕ → ℕ
  | 0 => attempts
  | k + 1 => k

lemma lastSent_eq {attempts k i : ℕ} (h : lastSent attempts k = i) (hi : i < attempts) : k = i + 1 := by
  cases k with
  | zero =>
    change attempts = i at h
    omega
  | succ k =>
    change k = i at h
    omega

lemma Role.other_ne (r : Role) : r.other ≠ r := by cases r <;> decide

lemma Role.other_other (r : Role) : r.other.other = r := by cases r <;> rfl

lemma Role.eq_other_of_ne {r r' : Role} (h : r' ≠ r) : r' = r.other := by
  cases r <;> cases r' <;> first | rfl | exact absurd rfl h

/-- The counters are in turn, and the variables hold what was sent last. -/
structure Ordered (attempts : ℕ) (c : Counters) (value : Role → ℕ) : Prop where
  inTurn : c.InTurn
  value : ∀ r, value r = lastSent attempts (c.sends r.other)

lemma ordered_start (attempts : ℕ) :
    Ordered attempts ⟨fun _ => 0, fun _ => 0⟩ (fun _ => attempts) :=
  ⟨⟨Nat.le_refl 0, Nat.le_refl 0, Nat.le_refl 0, Nat.zero_le 1⟩, fun _ => rfl⟩

section
variable {attempts i : ℕ} {c : Counters} {value : Role → ℕ} {r : Role}

/-- A thread sends when it has received the number of the round, or has to begin the round. -/
lemma Ordered.sent (h : Ordered attempts c value) (hs : c.sends r = i)
    (hr : c.receives r = i + r.lag) :
    Ordered attempts ⟨Function.update c.sends r (i + 1), c.receives⟩
        (Function.update value r.other i) ∧
      log (Counters.position ⟨Function.update c.sends r (i + 1), c.receives⟩) =
        log c.position ++ [.sent r i] := by
  obtain ⟨h1, h2, h3, h4⟩ := h.inTurn
  have hvalue : ∀ r', Function.update value r.other i r' =
      lastSent attempts (Function.update c.sends r (i + 1) r'.other) := by
    intro r'
    by_cases hr' : r' = r
    · rw [hr', Function.update_of_ne (Role.other_ne r).symm, Function.update_of_ne (Role.other_ne r)]
      exact h.value r
    · rw [Role.eq_other_of_ne hr', Function.update_self, Role.other_other, Function.update_self]
      rfl
  unfold Counters.position
  cases r with
  | ping =>
    change c.receives .ping = i at hr
    have hping : Function.update c.sends .ping (i + 1) .ping = i + 1 := Function.update_self ..
    have hpong : Function.update c.sends .ping (i + 1) .pong = c.sends .pong := rfl
    refine ⟨⟨⟨?_, ?_, ?_, ?_⟩, hvalue⟩, log_advance i 0 ?_ ?_ (by omega)⟩ <;>
      first | omega | (dsimp only; omega)
  | pong =>
    change c.receives .pong = i + 1 at hr
    have hping : Function.update c.sends .pong (i + 1) .ping = c.sends .ping := rfl
    have hpong : Function.update c.sends .pong (i + 1) .pong = i + 1 := Function.update_self ..
    refine ⟨⟨⟨?_, ?_, ?_, ?_⟩, hvalue⟩, log_advance i 2 ?_ ?_ (by omega)⟩ <;>
      first | omega | (dsimp only; omega)

/-- A thread that finds the number of its round has been sent it. -/
lemma Ordered.received (h : Ordered attempts c value) (hr : c.receives r = i)
    (hs : c.sends r + r.lag = i + 1) (hfound : value r = i) (hi : i < attempts) :
    Ordered attempts ⟨c.sends, Function.update c.receives r (i + 1)⟩ value ∧
      log (Counters.position ⟨c.sends, Function.update c.receives r (i + 1)⟩) =
        log c.position ++ [.received r i] := by
  obtain ⟨h1, h2, h3, h4⟩ := h.inTurn
  have hother : c.sends r.other = i + 1 := lastSent_eq ((h.value r).symm.trans hfound) hi
  unfold Counters.position
  cases r with
  | ping =>
    change c.sends .ping = i + 1 at hs
    change c.sends .pong = i + 1 at hother
    have hping : Function.update c.receives .ping (i + 1) .ping = i + 1 := Function.update_self ..
    have hpong : Function.update c.receives .ping (i + 1) .pong = c.receives .pong := rfl
    refine ⟨⟨⟨?_, ?_, ?_, ?_⟩, h.value⟩, log_advance i 3 ?_ ?_ (by omega)⟩ <;>
      first | omega | (dsimp only; omega)
  | pong =>
    change c.sends .pong + 1 = i + 1 at hs
    change c.sends .ping = i + 1 at hother
    have hping : Function.update c.receives .pong (i + 1) .ping = c.receives .ping := rfl
    have hpong : Function.update c.receives .pong (i + 1) .pong = i + 1 := Function.update_self ..
    refine ⟨⟨⟨?_, ?_, ?_, ?_⟩, h.value⟩, log_advance i 1 ?_ ?_ (by omega)⟩ <;>
      first | omega | (dsimp only; omega)

/-- A thread that waits for the number of its round and does not find it, or has finished -/
def Stuck (attempts : ℕ) (c : Counters) (value : Role → ℕ) (r : Role) : Prop :=
  c.sends r = attempts ∧ c.receives r = attempts ∨
    ∃ i < attempts, c.receives r = i ∧ c.sends r + r.lag = i + 1 ∧ value r ≠ i

/-- The threads are not both stuck before they have finished. -/
lemma Ordered.receives_of_stuck (h : Ordered attempts c value)
    (hstuck : ∀ r, Stuck attempts c value r) : ∀ r, c.receives r = attempts := by
  obtain ⟨h1, h2, h3, h4⟩ := h.inTurn
  have hvping : value .ping = lastSent attempts (c.sends .pong) := h.value .ping
  have hvpong : value .pong = lastSent attempts (c.sends .ping) := h.value .pong
  rcases hstuck .ping with ⟨-, hping⟩ | ⟨i, hi, hreceives, hsends, hvalue⟩
  · rcases hstuck .pong with ⟨-, hpong⟩ | ⟨j, hj, hreceives', hsends', -⟩
    · intro r
      cases r with
      | ping => exact hping
      | pong => exact hpong
    · change c.sends .pong + 1 = j + 1 at hsends'
      omega
  · change c.sends .ping = i + 1 at hsends
    rcases hstuck .pong with ⟨hpong, hpong'⟩ | ⟨j, hj, hreceives', hsends', hvalue'⟩
    · -- `pong` has sent the last number back
      have hlast : c.sends .pong = i + 1 := by omega
      rw [hlast] at hvping
      exact absurd hvping hvalue
    · change c.sends .pong + 1 = j + 1 at hsends'
      by_cases hij : j = i
      · rw [hsends] at hvpong
        exact absurd (hvpong.trans hij.symm) hvalue'
      · have hlast : c.sends .pong = i + 1 := by omega
        rw [hlast] at hvping
        exact absurd hvping hvalue

end

section
variable {κ : Type} (sends receives : Role → κ → ℕ)

def Counters.of (pc : Role → κ) : Counters := ⟨fun r => sends r (pc r), fun r => receives r (pc r)⟩

lemma Counters.of_update (pc : Role → κ) (r : Role) (p : κ) :
    Counters.of sends receives (Function.update pc r p) =
      ⟨Function.update (Counters.of sends receives pc).sends r (sends r p),
        Function.update (Counters.of sends receives pc).receives r (receives r p)⟩ := by
  unfold Counters.of
  congr 1
  · funext r'
    by_cases h : r' = r
    · subst h
      rw [Function.update_self, Function.update_self]
    · rw [Function.update_of_ne h, Function.update_of_ne h]
  · funext r'
    by_cases h : r' = r
    · subst h
      rw [Function.update_self, Function.update_self]
    · rw [Function.update_of_ne h, Function.update_of_ne h]

variable {sends receives} {pc : Role → κ} {r : Role} {p : κ} {i : ℕ}

lemma Counters.of_sent (hs : sends r p = i + 1) (hr : receives r p = receives r (pc r)) :
    Counters.of sends receives (Function.update pc r p) =
      ⟨Function.update (Counters.of sends receives pc).sends r (i + 1),
        (Counters.of sends receives pc).receives⟩ := by
  rw [Counters.of_update, hs, hr]
  congr 1
  exact Function.update_eq_self ..

lemma Counters.of_received (hs : sends r p = sends r (pc r)) (hr : receives r p = i + 1) :
    Counters.of sends receives (Function.update pc r p) =
      ⟨(Counters.of sends receives pc).sends,
        Function.update (Counters.of sends receives pc).receives r (i + 1)⟩ := by
  rw [Counters.of_update, hs, hr]
  congr 1
  exact Function.update_eq_self ..

lemma Counters.of_silent (hs : sends r p = sends r (pc r)) (hr : receives r p = receives r (pc r)) :
    Counters.of sends receives (Function.update pc r p) = Counters.of sends receives pc := by
  rw [Counters.of_update, hs, hr]
  congr 1
  · exact Function.update_eq_self ..
  · exact Function.update_eq_self ..

end

end CodeC.PingPong
