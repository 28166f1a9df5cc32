import CodeC.Proofs.MemoryReorderingSteps
import Mathlib.Data.List.Basic

/-!
# What the reordering detector counts

In every run, however the stores are delayed, the counter of `main` is the number of finished rounds
in which both threads have loaded zero, up to the wrapping of its integers: it reports no round twice
and compares no result of an older round.
-/

namespace CodeC.MemoryReordering
open Library

variable {cfg : Config} {s s' t : State} {es : List Event}

/-- The values that `w` has loaded, round by round -/
def loads (w : Worker) (es : List Event) : List ℕ :=
  es.filterMap fun
    | .loaded w' v => if w' = w then some v else none
    | .report _ _ => none

/-- The lines that `main` has printed -/
def reports (es : List Event) : List (ℤ × ℤ) :=
  es.filterMap fun
    | .loaded _ _ => none
    | .report detected i => some (detected, i)

/-- The results of the rounds in which both threads have loaded -/
def outcomes (es : List Event) : List (ℕ × ℕ) := (loads .one es).zip (loads .two es)

lemma loads_append (w : Worker) (es fs : List Event) : loads w (es ++ fs) = loads w es ++ loads w fs :=
  List.filterMap_append

lemma reports_append (es fs : List Event) : reports (es ++ fs) = reports es ++ reports fs :=
  List.filterMap_append

/-- The lines for a sequence of rounds: one for each round in which both threads have loaded zero, with
the number of such rounds so far and the number of the round, as `num` represents them. -/
def lines (num : ℤ → ℤ) (past : List (ℕ × ℕ)) : List (ℤ × ℤ) :=
  (List.range past.length).filterMap fun k =>
    if past[k]? = some (0, 0) then some (num ((past.take (k + 1)).count (0, 0)), num (k + 1)) else none

lemma lines_append_singleton (num : ℤ → ℤ) (past : List (ℕ × ℕ)) (x : ℕ × ℕ) :
    lines num (past ++ [x]) = lines num past ++
      if x = (0, 0) then [(num (past.count (0, 0) + 1), num (past.length + 1))] else [] := by
  have hold : ∀ k ∈ List.range past.length,
      (past ++ [x])[k]? = past[k]? ∧ (past ++ [x]).take (k + 1) = past.take (k + 1) := by
    intro k hk
    have hlt := List.mem_range.mp hk
    exact ⟨List.getElem?_append_left hlt, List.take_append_of_le_length hlt⟩
  unfold lines
  rw [List.length_append, List.length_singleton, List.range_succ, List.filterMap_append]
  congr 1
  · apply List.filterMap_congr
    intro k hk
    rw [(hold k hk).1, (hold k hk).2]
  · have htake : (past ++ [x]).take (past.length + 1) = past ++ [x] := by
      rw [List.take_of_length_le]
      simp
    by_cases hx : x = (0, 0)
    · subst hx
      simp [htake, List.count_append]
    · simp [hx]

/-- The numbers are exact as long as the rounds can be counted in 31 bits. -/
lemma lines_wrap32 {past : List (ℕ × ℕ)} (h : past.length < 2 ^ 31) :
    lines wrap32 past = lines id past := by
  apply List.filterMap_congr
  intro k hk
  have hlt := List.mem_range.mp hk
  have hcount : (past.take (k + 1)).count (0, 0) ≤ past.length :=
    (List.count_le_length).trans ((List.length_take_le _ _).trans (by omega))
  rw [wrap32_of_range (by omega) (by omega), wrap32_of_range (by omega) (by omega)]
  rfl

/-- The finished rounds and, behind them, what has been loaded in this one -/
structure Past (cfg : Config) (s : State) (es : List Event) (past : List (ℕ × ℕ)) : Prop where
  i : s.i = wrap32 (past.length + 1)
  one : loads .one es = past.map Prod.fst ++ (result cfg s .one).toList
  two : loads .two es = past.map Prod.snd ++ (result cfg s .two).toList
  detected : s.detected = wrap32 (past.count (0, 0))
  printed : reports es = lines wrap32 past

/-- A round ends with the results `a` and `b`. -/
lemma Past.next {past : List (ℕ × ℕ)} {a b : ℕ} (h : Past cfg s es past)
    (hone : result cfg s .one = some a) (htwo : result cfg s .two = some b)
    (hnone : ∀ w, result cfg s' w = none) (hi : s'.i = wrap32 (s.i + 1)) :
    s'.i = wrap32 ((past ++ [(a, b)]).length + 1) ∧
      loads .one es = (past ++ [(a, b)]).map Prod.fst ++ (result cfg s' .one).toList ∧
      loads .two es = (past ++ [(a, b)]).map Prod.snd ++ (result cfg s' .two).toList := by
  refine ⟨?_, ?_, ?_⟩
  · rw [hi, h.i, wrap32_add, List.length_append, List.length_singleton]
    push_cast
    rfl
  · rw [h.one, hone, hnone]
    simp
  · rw [h.two, htwo, hnone]
    simp

lemma Past.step {g : List Event} {past : List (ℕ × ℕ)} (h : Past cfg s g past)
    (hmoves : Moves cfg s s' es) : ∃ past, Past cfg s' (g ++ es) past := by
  cases hmoves with
  | quiet hresult hi hdetected =>
    refine ⟨past, ?_⟩
    rw [List.append_nil]
    exact ⟨by rw [hi, h.i], by rw [h.one, hresult], by rw [h.two, hresult],
      by rw [hdetected, h.detected], h.printed⟩
  | load w v _ hnone hsome hother hi hdetected =>
    have hreports : reports (g ++ [.loaded w v]) = reports g := by
      rw [reports_append]
      exact List.append_nil _
    refine ⟨past, by rw [hi, h.i], ?_, ?_, by rw [hdetected, h.detected],
      by rw [hreports, h.printed]⟩
    · rw [loads_append, h.one]
      cases w with
      | one =>
        rw [hnone, hsome]
        simp [loads]
      | two =>
        rw [show result cfg s' .one = result cfg s .one from hother]
        simp [loads]
    · rw [loads_append, h.two]
      cases w with
      | one =>
        rw [show result cfg s' .two = result cfg s .two from hother]
        simp [loads]
      | two =>
        rw [hnone, hsome]
        simp [loads]
  | next a b hone htwo hnone hi hzero hdetected =>
    obtain ⟨hi', hone', htwo'⟩ := h.next hone htwo hnone hi
    have hne : (a, b) ≠ (0, 0) := fun he => hzero (Prod.mk.inj he)
    refine ⟨past ++ [(a, b)], ?_⟩
    rw [List.append_nil]
    refine ⟨hi', hone', htwo', ?_, ?_⟩
    · rw [hdetected, h.detected, List.count_append, List.count_singleton, if_neg (by simpa using hne)]
      rfl
    · rw [lines_append_singleton, if_neg hne, List.append_nil, h.printed]
  | detect hone htwo hnone hi hdetected =>
    obtain ⟨hi', hone', htwo'⟩ := h.next hone htwo hnone hi
    have hcount : s'.detected = wrap32 (past.count (0, 0) + 1) := by
      rw [hdetected, h.detected, wrap32_add]
    have hloads : ∀ w, loads w (g ++ [.report s'.detected s.i]) = loads w g := by
      intro w
      rw [loads_append]
      exact List.append_nil _
    refine ⟨past ++ [(0, 0)], hi', by rw [hloads, hone'], by rw [hloads, htwo'], ?_, ?_⟩
    · rw [hcount, List.count_append, List.count_singleton]
      rfl
    · rw [lines_append_singleton, if_pos rfl, reports_append, h.printed, ← hcount, ← h.i]
      rfl

/-- In every run the counter of `main` is the number of finished rounds in which both threads have
loaded zero, as a signed 32-bit integer holds it. Each thread loads once in each round, and a line is
printed for each such round and no other, with the number of such rounds up to it and the number of the
round; in the first `2 ^ 31 - 2` rounds these numbers are exact. -/
theorem detector_counts_rounds (cfg : Config) (as : List Action) (t : State) (es : List Event)
    (hrun : run (step cfg) init as = some (t, es)) :
    ∃ past, past <+: outcomes es ∧
      (∀ w, past.length ≤ (loads w es).length ∧ (loads w es).length ≤ past.length + 1) ∧
      t.i = wrap32 (past.length + 1) ∧ t.detected = wrap32 (past.count (0, 0)) ∧
      reports es = lines wrap32 past ∧
      (past.length + 1 < 2 ^ 31 →
        t.i = past.length + 1 ∧ t.detected = past.count (0, 0) ∧ reports es = lines id past) := by
  have hstart : Past cfg init [] [] := ⟨rfl, rfl, rfl, rfl, rfl⟩
  obtain ⟨-, past, hpast⟩ := run_invariant_events (step cfg)
    (fun s g => Inv cfg s ∧ ∃ past, Past cfg s g past)
    (fun s g a s' es hs hstep => by
      obtain ⟨hinv, hmoves⟩ := moves_of_step hs.1 hstep
      obtain ⟨past, hp⟩ := hs.2
      exact ⟨hinv, hp.step hmoves⟩) ⟨inv_init cfg, [], hstart⟩ hrun
  have hzip : outcomes es =
      past ++ (result cfg t .one).toList.zip (result cfg t .two).toList := by
    unfold outcomes
    rw [hpast.one, hpast.two, List.zip_append (by simp)]
    congr 1
    simp [List.zip_map']
  have htoList : ∀ o : Option ℕ, o.toList.length ≤ 1 := by
    intro o
    cases o <;> simp
  refine ⟨past, ⟨_, hzip.symm⟩, ?_, hpast.i, hpast.detected, hpast.printed, ?_⟩
  · intro w
    have hw : (loads w es).length = past.length + (result cfg t w).toList.length := by
      cases w with
      | one => rw [hpast.one, List.length_append, List.length_map]
      | two => rw [hpast.two, List.length_append, List.length_map]
    have hle := htoList (result cfg t w)
    omega
  · intro hbound
    have hcount : past.count (0, 0) ≤ past.length := List.count_le_length
    refine ⟨?_, ?_, ?_⟩
    · rw [hpast.i, wrap32_of_range (by omega) (by omega)]
    · rw [hpast.detected, wrap32_of_range (by omega) (by omega)]
    · rw [hpast.printed, lines_wrap32 (by omega)]

/-- The threads on processors of their own, without a fence -/
def apart : Config := ⟨false, fun | .main => 0 | .worker .one => 1 | .worker .two => 2⟩

/-- A round in which both threads load zero -/
def reorderedRound : List Action :=
  [.main, .main, .flush 0, .flush 0, .main, .main, .worker .one, .worker .two, .worker .one,
    .worker .two, .worker .one, .worker .two, .worker .one, .worker .two, .worker .one, .worker .two,
    .flush 1, .flush 1, .flush 2, .flush 2, .worker .one, .worker .two, .main, .main, .main, .main]

theorem detector_counts_rounds_apart : ∃ t es, run (step apart) init reorderedRound = some (t, es) ∧
    t.detected = 1 ∧ outcomes es = [(0, 0)] ∧ reports es = [(1, 1)] ∧
    ∃ past, past <+: outcomes es ∧
      (∀ w, past.length ≤ (loads w es).length ∧ (loads w es).length ≤ past.length + 1) ∧
      t.i = wrap32 (past.length + 1) ∧ t.detected = wrap32 (past.count (0, 0)) ∧
      reports es = lines wrap32 past ∧
      (past.length + 1 < 2 ^ 31 →
        t.i = past.length + 1 ∧ t.detected = past.count (0, 0) ∧ reports es = lines id past) :=
  ⟨_, _, rfl, rfl, rfl, rfl, detector_counts_rounds apart reorderedRound _ _ rfl⟩

end CodeC.MemoryReordering
