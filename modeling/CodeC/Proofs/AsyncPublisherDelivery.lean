import CodeC.AsyncPublisher
import Mathlib.Data.Fintype.Option

/-!
# When `20221207-pubsub-libuv` delivers the last buffer

`async_publisher_cb` hands `buffer_` out to one subscriber after the other and then marks it as
handled, whatever it holds by then. A buffer that is stored in the meantime reaches the subscribers
whose place the iterator has not passed yet, and no others.
-/

namespace CodeC.AsyncPublisher
open Library

variable {n m : ℕ}

/-- Every step of the system, with its guard and its effect. -/
inductive Move (s : State n m) : Action n m → State n m → List (Event n) → Prop
  | publish (i : Option (Fin m)) (buf : Buffer) : Move s (.publish i buf) (publish s i buf) []
  | stop (i : Option (Fin m)) : Move s (.stop i) (stop s i) []
  | send (i : Option (Fin m)) (hi : s.sending i = true) : Move s (.send i) (send s i) []
  | subscribe (k : Fin n) :
    Move s (.subscribe k) { s with subscribers := Function.update s.subscribers k true } []
  | enter (hl : s.loop = .idle) (hp : s.pending = true) :
    Move s .loop { s with pending := false, loop := .entered } []
  | stopSeen (hl : s.loop = .entered) (hstop : s.stop = true) :
    Move s .loop { s with loop := .closed } []
  | check (hl : s.loop = .entered) : Move s .loop { s with loop := .checked } []
  | begin (hl : s.loop = .checked) (hd : s.buffer.data ≠ none) :
    Move s .loop { s with loop := .iterating (.first s.subscribers) } []
  | skip (hl : s.loop = .checked) (hd : s.buffer.data = none) :
    Move s .loop { s with loop := .idle } []
  | call (k : Fin n) (hl : s.loop = .iterating (.head (some k))) :
    Move s .loop { s with loop := .iterating (.body k) } [.delivered k s.buffer]
  | clear (hl : s.loop = .iterating (.head none)) : Move s .loop (clear s) []
  | next (k : Fin n) (hl : s.loop = .iterating (.body k)) :
    Move s .loop { s with loop := .iterating (.next s.subscribers k) } []

lemma loopStep_move {s s' : State n m} {es : List (Event n)} (h : loopStep s = some (s', es)) :
    Move s .loop s' es := by
  unfold loopStep at h
  cases hl : s.loop with
  | idle =>
    simp only [hl, runCallback] at h
    by_cases hp : s.pending = true
    · rw [if_pos hp, Option.map_some] at h
      obtain ⟨rfl, rfl⟩ := Prod.mk.inj (Option.some.inj h)
      exact .enter hl hp
    · simp [hp] at h
  | entered =>
    simp only [hl, testStop] at h
    obtain ⟨rfl, rfl⟩ := Prod.mk.inj (Option.some.inj h)
    by_cases hstop : s.stop = true
    · rw [if_pos hstop]
      exact .stopSeen hl hstop
    · rw [if_neg hstop]
      exact .check hl
  | checked =>
    simp only [hl, testData] at h
    obtain ⟨rfl, rfl⟩ := Prod.mk.inj (Option.some.inj h)
    by_cases hd : s.buffer.data = none
    · rw [if_neg (not_not.mpr hd)]
      exact .skip hl hd
    · rw [if_pos hd]
      exact .begin hl hd
  | iterating c =>
    rcases c with (_ | k) | k
    · simp only [hl] at h
      obtain ⟨rfl, rfl⟩ := Prod.mk.inj (Option.some.inj h)
      exact .clear hl
    · simp only [hl, call] at h
      obtain ⟨rfl, rfl⟩ := Prod.mk.inj (Option.some.inj h)
      exact .call k hl
    · simp only [hl] at h
      by_cases hs : s.sending none = true
      · simp [hs] at h
      · rw [if_neg hs] at h
        obtain ⟨rfl, rfl⟩ := Prod.mk.inj (Option.some.inj h)
        exact .next k hl
  | closed => simp [hl] at h

theorem step_move {s s' : State n m} {a : Action n m} {es : List (Event n)}
    (h : step s a = some (s', es)) : Move s a s' es := by
  cases a with
  | publish i buf =>
    obtain ⟨-, h⟩ := Option.ite_none_right_eq_some.mp h
    obtain ⟨rfl, rfl⟩ := Prod.mk.inj (Option.some.inj h)
    exact .publish i buf
  | stop i =>
    obtain ⟨-, h⟩ := Option.ite_none_right_eq_some.mp h
    obtain ⟨rfl, rfl⟩ := Prod.mk.inj (Option.some.inj h)
    exact .stop i
  | send i =>
    obtain ⟨hi, h⟩ := Option.ite_none_right_eq_some.mp h
    obtain ⟨rfl, rfl⟩ := Prod.mk.inj (Option.some.inj h)
    exact .send i hi
  | subscribe k =>
    obtain ⟨-, h⟩ := Option.ite_none_left_eq_some.mp h
    obtain ⟨rfl, rfl⟩ := Prod.mk.inj (Option.some.inj h)
    exact .subscribe k
  | loop => exact loopStep_move h

/-- The loop hands `buffer_` out, and its iterator is past the place of subscriber `k`. -/
def Loop.Passed (k : Fin n) : Loop n → Prop
  | .iterating c => c.Passed k
  | _ => False

/-- The loop hands `buffer_` out, and its iterator has passed the place of a registered subscriber, which
it has called there or which has been inserted behind it. -/
def Overtaken (s : State n m) : Prop := ∃ k, s.subscribers k = true ∧ s.loop.Passed k

/-- No flag is pending, no callback is running, no `Publish` or `Stop` is between its store and its
send, and `stop_` is false. -/
structure Quiet (s : State n m) : Prop where
  pending : s.pending = false
  loop : s.loop = .idle
  sending : ∀ i, s.sending i = false
  stop : s.stop = false

/-- The buffer is in `buffer_` and the loop will get to subscriber `k` with it. -/
structure Due (buf : Buffer) (k : Fin n) (s : State n m) : Prop where
  buffer : s.buffer = buf
  registered : s.subscribers k = true
  ahead : ¬s.loop.Passed k
  woken : s.loop = .idle → s.pending = true ∨ ∃ i, s.sending i = true

lemma Due.not_quiet {buf : Buffer} {k : Fin n} {s : State n m} (h : Due buf k s) : ¬Quiet s := by
  intro hq
  obtain hp | ⟨i, hi⟩ := h.woken hq.loop
  · rw [hq.pending] at hp
    cases hp
  · rw [hq.sending i] at hi
    cases hi

/-- Without a further store, a step calls subscriber `k` with the buffer or leaves that to be
done, as long as the delegate is not stopped. -/
lemma due_move {buf : Buffer} {k : Fin n} {s s' : State n m} {a : Action n m}
    {es : List (Event n)} (hdata : buf.data ≠ none) (hm : Move s a s' es)
    (ha : ∀ i b, a ≠ .publish i b) (h : Due buf k s) :
    s'.stop = true ∨ .delivered k buf ∈ es ∨ Due buf k s' := by
  obtain ⟨hbuf, hreg, hahead, hwoken⟩ := h
  cases hm with
  | publish i b => exact absurd rfl (ha i b)
  | stop i => exact Or.inl rfl
  | send i hi => exact Or.inr (Or.inr ⟨hbuf, hreg, hahead, fun _ => Or.inl rfl⟩)
  | subscribe j =>
    refine Or.inr (Or.inr ⟨hbuf, ?_, hahead, hwoken⟩)
    by_cases hj : k = j
    · simp [hj]
    · simp [hj, hreg]
  | enter hl hp => exact Or.inr (Or.inr ⟨hbuf, hreg, id, nofun⟩)
  | stopSeen hl hstop => exact Or.inl hstop
  | check hl => exact Or.inr (Or.inr ⟨hbuf, hreg, id, nofun⟩)
  | begin hl hd => exact Or.inr (Or.inr ⟨hbuf, hreg, Cursor.not_passed_first hreg, nofun⟩)
  | skip hl hd =>
    rw [hbuf] at hd
    exact absurd hd hdata
  | call j hl =>
    rw [hl] at hahead
    by_cases hjk : j = k
    · exact Or.inr (Or.inl (by simp [hjk, hbuf]))
    · have hbody : ¬(Cursor.body j).Passed k := by
        rw [Cursor.passed_body_iff]
        exact not_or.mpr ⟨hjk, hahead⟩
      exact Or.inr (Or.inr ⟨hbuf, hreg, hbody, nofun⟩)
  | clear hl =>
    rw [hl] at hahead
    exact absurd (Cursor.passed_end k) hahead
  | next j hl =>
    rw [hl] at hahead
    exact Or.inr (Or.inr ⟨hbuf, hreg, Cursor.not_passed_next hreg hahead, nofun⟩)

/-- The loop is past subscriber `k`, or `buffer_` has been marked as handled. -/
def Lost (k : Fin n) (s : State n m) : Prop :=
  s.loop.Passed k ∨ s.buffer.data = none ∧ ∀ c, s.loop ≠ .iterating c

lemma lost_move {k : Fin n} {s s' : State n m} {a : Action n m} {es : List (Event n)}
    (hm : Move s a s' es) (ha : ∀ i b, a ≠ .publish i b) (h : Lost k s) :
    Lost k s' ∧ ∀ b, .delivered k b ∉ es := by
  have hloop : ∀ c, s.loop = .iterating c → c.Passed k := by
    intro c hc
    obtain hp | ⟨-, hne⟩ := h
    · rwa [hc] at hp
    · exact absurd hc (hne c)
  have hdata : (∀ c, s.loop ≠ .iterating c) → s.buffer.data = none := by
    intro hne
    obtain hp | ⟨hd, -⟩ := h
    · cases hl : s.loop with
      | iterating c => exact absurd hl (hne c)
      | _ => simp [hl, Loop.Passed] at hp
    · exact hd
  cases hm with
  | publish i b => exact absurd rfl (ha i b)
  | stop i => exact ⟨h, by simp⟩
  | send i hi => exact ⟨h, by simp⟩
  | subscribe j => exact ⟨h, by simp⟩
  | enter hl hp => exact ⟨Or.inr ⟨hdata (by simp [hl]), nofun⟩, by simp⟩
  | stopSeen hl hstop => exact ⟨Or.inr ⟨hdata (by simp [hl]), nofun⟩, by simp⟩
  | check hl => exact ⟨Or.inr ⟨hdata (by simp [hl]), nofun⟩, by simp⟩
  | begin hl hd => exact absurd (hdata (by simp [hl])) hd
  | skip hl hd => exact ⟨Or.inr ⟨hd, nofun⟩, by simp⟩
  | call j hl =>
    have hp := hloop _ hl
    have hjk : k ≠ j := by
      rintro rfl
      exact Cursor.not_passed_head_self k hp
    exact ⟨Or.inl (Cursor.passed_body_iff.mpr (Or.inr hp)), by simp [hjk]⟩
  | clear hl => exact ⟨Or.inr ⟨rfl, nofun⟩, by simp⟩
  | next j hl => exact ⟨Or.inl (Cursor.passed_next (hloop _ hl)), by simp⟩

lemma stop_move {s s' : State n m} {a : Action n m} {es : List (Event n)} (hm : Move s a s' es)
    (h : s.stop = true) : s'.stop = true := by
  cases hm <;> first | exact h | rfl

section run

variable {u s : State n m} {bs : List (Action n m)} {es : List (Event n)} {buf : Buffer}
  {k : Fin n}

lemma eachStep_of_no_publish (hbs : ∀ i b, .publish i b ∉ bs) :
    EachStep step (fun (_ : State n m) (_ : List (Event n)) a => ∀ i b, a ≠ .publish i b) u bs := by
  intro cs a ds t fs has _ i b hab
  exact hbs i b (by simp [has, hab])

lemma due_run (hdata : buf.data ≠ none) (hbs : ∀ i b, .publish i b ∉ bs) (h : Due buf k u)
    (hrun : run step u bs = some (s, es)) :
    s.stop = true ∨ .delivered k buf ∈ es ∨ Due buf k s := by
  refine run_invariant_eachStep step _ (fun t fs => t.stop = true ∨ .delivered k buf ∈ fs ∨
    Due buf k t) ?_ (eachStep_of_no_publish hbs) (Or.inr (Or.inr h)) hrun
  rintro t fs a t' gs ha (hstop | hmem | hdue) hs
  · exact Or.inl (stop_move (step_move hs) hstop)
  · exact Or.inr (Or.inl (List.mem_append_left _ hmem))
  · obtain hstop | hmem | hdue' := due_move hdata (step_move hs) ha hdue
    · exact Or.inl hstop
    · exact Or.inr (Or.inl (List.mem_append_right _ hmem))
    · exact Or.inr (Or.inr hdue')

lemma lost_run (hbs : ∀ i b, .publish i b ∉ bs) (h : Lost k u)
    (hrun : run step u bs = some (s, es)) : Lost k s ∧ ∀ b, .delivered k b ∉ es := by
  refine run_invariant_eachStep step _ (fun t fs => Lost k t ∧ ∀ b, .delivered k b ∉ fs) ?_
    (eachStep_of_no_publish hbs) ⟨h, by simp⟩ hrun
  rintro t fs a t' gs ha ⟨hlost, hnone⟩ hs
  obtain ⟨hlost', hnone'⟩ := lost_move (step_move hs) ha hlost
  refine ⟨hlost', fun b hb => ?_⟩
  obtain hb | hb := List.mem_append.mp hb
  · exact hnone b hb
  · exact hnone' b hb

end run

/-- In a quiet state, the last buffer stored has been passed to the callback of every subscriber
that was registered at its store if and only if the loop was not handing out the buffer before it
with its iterator past the place of some registered subscriber. -/
theorem last_delivered_iff_not_overtaken (bs : List (Action n m)) (i : Option (Fin m))
    (buf : Buffer) (u s : State n m) (es : List (Event n))
    (hrun : run step u (.publish i buf :: bs) = some (s, es))
    (hbs : ∀ j b, .publish j b ∉ bs) (hdata : buf.data ≠ none) (hquiet : Quiet s) :
    (∀ k, u.subscribers k = true → .delivered k buf ∈ es) ↔ ¬Overtaken u := by
  obtain ⟨u', e, f, hs, hr, rfl⟩ := (run_cons_iff _ _ _ _ _ _).mp hrun
  obtain ⟨-, hs⟩ := Option.ite_none_right_eq_some.mp hs
  obtain ⟨rfl, rfl⟩ := Prod.mk.inj (Option.some.inj hs)
  rw [List.nil_append]
  constructor
  · rintro hall ⟨k, hk, hpassed⟩
    have hlost : Lost k (publish u i buf) := Or.inl hpassed
    exact (lost_run hbs hlost hr).2 buf (hall k hk)
  · intro hnot k hk
    have hdue : Due buf k (publish u i buf) :=
      ⟨rfl, hk, fun hp => hnot ⟨k, hk, hp⟩, fun _ => Or.inr ⟨i, Function.update_self ..⟩⟩
    obtain hstop | hmem | hdue' := due_run hdata hbs hdue hr
    · rw [hquiet.stop] at hstop
      cases hstop
    · exact hmem
    · exact absurd hquiet hdue'.not_quiet

/-- A buffer that is stored while the loop is idle. -/
theorem last_delivered_idle_loop :
    ∃ (u s : State 1 1) (es₀ es : List (Event 1)),
      run step start [.subscribe 0] = some (u, es₀) ∧
      run step u [.publish (some 0) ⟨some 1, 4⟩, .send (some 0), .loop, .loop, .loop, .loop, .loop,
        .loop] = some (s, es) ∧
      Quiet s ∧ ∀ k, u.subscribers k = true → .delivered k ⟨some 1, 4⟩ ∈ es := by
  have hquiet : Quiet (⟨⟨none, 4⟩, false, Function.update (fun _ => false) 0 true,
      Function.update (Function.update (fun _ => false) (some 0) true) (some 0) false, false,
      .idle⟩ : State 1 1) := ⟨rfl, rfl, by decide, rfl⟩
  refine ⟨_, _, _, _, rfl, rfl, hquiet, ?_⟩
  refine (last_delivered_iff_not_overtaken [.send (some 0), .loop, .loop, .loop, .loop, .loop,
    .loop] (some 0) ⟨some 1, 4⟩ _ _ _ rfl (by simp) (by simp) hquiet).mpr ?_
  rintro ⟨k, -, hpassed⟩
  exact hpassed

/-- The second buffer is stored after the only callback and before the first one is marked as
handled. The mark then hits the second buffer, and the callback its send causes finds nothing. -/
theorem buffer_stored_in_handout_is_lost :
    ∃ (u s : State 1 1) (es₀ es : List (Event 1)),
      run step start [.subscribe 0, .publish (some 0) ⟨some 1, 4⟩, .send (some 0), .loop, .loop,
        .loop, .loop, .loop] = some (u, es₀) ∧
      run step u [.publish (some 0) ⟨some 2, 4⟩, .loop, .send (some 0), .loop, .loop, .loop] =
        some (s, es) ∧
      Quiet s ∧ u.subscribers 0 = true ∧ .delivered 0 ⟨some 2, 4⟩ ∉ es := by
  refine ⟨_, _, _, _, rfl, rfl, ⟨rfl, rfl, ?_, rfl⟩, rfl, by simp⟩
  decide

end CodeC.AsyncPublisher
