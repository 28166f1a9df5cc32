import CodeC.Proofs.MemoryReorderingSteps

/-!
# When the detector can detect a reordering

A thread that has passed its barrier is seen by the other one if the barrier is a fence, or if both
run on one processor and share its buffer. Then the second of the two loads of a round returns one.
Otherwise both stores can still be in their buffers when both threads load.
-/

namespace CodeC.MemoryReordering
open Library

variable {cfg : Config} {s s' t : State} {es : List Event}

/-- `w` has passed its barrier in this round. -/
def Passed (cfg : Config) (s : State) (w : Worker) : Prop :=
  s.worker w = .fenced ∨ result cfg s w ≠ none

/-- `w` sees its own store, and from its barrier on the other thread sees it too. -/
structure Seen (cfg : Config) (s : State) (w : Worker) : Prop where
  own : s.worker w = .stored → s.mem.load (cfg.cpu (.worker w)) w.flag = 1
  other : Passed cfg s w → s.mem.load (cfg.cpu (.worker w.other)) w.flag = 1

lemma posted_of_passed (h : Inv cfg s) {w : Worker} (hw : Passed cfg s w) :
    s.main.posted w = true := by
  by_contra hp
  have hnot : s.main.posted w = false := by simpa using hp
  rcases hw with hpc | hresult
  · rw [(h.rounds.quiet w hnot).2] at hpc
    cases hpc
  · exact hresult (h.rounds.result_eq_none hnot)

/-- While a thread runs, only ones are on their way to the flags. -/
lemma flag_eq_one_of_posted (h : Inv cfg s) {w : Worker} (hw : s.main.posted w = true) {c : ℕ}
    {x : Worker} {v : ℕ} (hv : (x.flag, v) ∈ s.mem.buffer c) : v = 1 := by
  apply h.buffered.flag_eq_one _ _ hv
  · intro hm
    rw [hm] at hw
    cases hw
  · intro hm
    rw [hm] at hw
    cases hw

/-- A step in which `w` neither stores nor passes its barrier -/
lemma Seen.keep {w : Worker} (h : Seen cfg s w)
    (hstored : s'.worker w = .stored → s.worker w = .stored)
    (hpassed : Passed cfg s' w → Passed cfg s w)
    (hload : ∀ c, s.worker w = .stored ∨ Passed cfg s w → s.mem.load c w.flag = 1 →
      s'.mem.load c w.flag = 1) : Seen cfg s' w := by
  constructor
  · intro hw
    exact hload _ (Or.inl (hstored hw)) (h.own (hstored hw))
  · intro hw
    exact hload _ (Or.inr (hpassed hw)) (h.other (hpassed hw))

/-- What the results say about who has passed -/
lemma passed_of_quiet (hmoves : Moves cfg s s' []) {w : Worker}
    (hpc : s'.worker w = .fenced → s.worker w = .fenced) (hw : Passed cfg s' w) :
    Passed cfg s w := by
  rcases hw with hf | hresult
  · exact Or.inl (hpc hf)
  · right
    intro hnone
    cases hmoves with
    | quiet hkeep => exact hresult ((hkeep w).trans hnone)
    | next _ _ _ _ hnone' => exact hresult (hnone' w)

lemma Seen.flush {w : Worker} (h : Seen cfg s w) (hinv : Inv cfg s) {c : ℕ} {m : Tso ℕ Loc ℕ}
    (hm : s.mem.flush c = some m) : Seen cfg { s with mem := m } w := by
  obtain ⟨-, hmoves⟩ := moves_flush hinv hm
  refine h.keep (fun hw => hw) (passed_of_quiet hmoves (fun hf => hf)) ?_
  intro c' hw hone
  apply Tso.load_flush_eq hm _ hone
  intro c'' v hv
  have hposted : s.main.posted w = true := by
    rcases hw with hstored | hpassed
    · exact hinv.rounds.posted (by simp [hstored])
    · exact posted_of_passed hinv hpassed
  exact flag_eq_one_of_posted hinv hposted hv

lemma seen_of_not_posted (hinv : Inv cfg s) {w : Worker} (h : s.main.posted w = false) :
    Seen cfg s w := by
  constructor
  · intro hw
    rw [(hinv.rounds.quiet w h).2] at hw
    cases hw
  · intro hw
    rw [posted_of_passed hinv hw] at h
    cases h

/-- `main` stores to the flags only while no thread runs. -/
lemma mainLoop_frame (hs : mainLoop cfg s = some (s', es)) :
    (∀ w, s'.main.posted w = false) ∨ s'.mem = s.mem ∧ s'.worker = s.worker ∧ es = [] := by
  unfold mainLoop at hs
  dsimp only at hs
  cases hmain : s.main with
  | clearX =>
    simp only [hmain] at hs
    obtain ⟨rfl, rfl⟩ := Prod.mk.inj (Option.some.inj hs)
    exact Or.inl fun _ => rfl
  | clearY =>
    simp only [hmain] at hs
    obtain ⟨rfl, rfl⟩ := Prod.mk.inj (Option.some.inj hs)
    exact Or.inl fun _ => rfl
  | post w =>
    cases w <;> simp only [hmain, postBegin] at hs <;> split_ifs at hs <;>
      obtain ⟨rfl, rfl⟩ := Prod.mk.inj (Option.some.inj hs) <;> exact Or.inr ⟨rfl, rfl, rfl⟩
  | waitFirst =>
    simp only [hmain, waitEnd] at hs
    split_ifs at hs
    obtain ⟨rfl, rfl⟩ := Prod.mk.inj (Option.some.inj hs)
    exact Or.inr ⟨rfl, rfl, rfl⟩
  | waitSecond =>
    simp only [hmain, waitEnd] at hs
    split_ifs at hs
    obtain ⟨rfl, rfl⟩ := Prod.mk.inj (Option.some.inj hs)
    exact Or.inr ⟨rfl, rfl, rfl⟩
  | check w =>
    cases w with
    | one =>
      simp only [hmain] at hs
      split_ifs at hs
      · obtain ⟨rfl, rfl⟩ := Prod.mk.inj (Option.some.inj hs)
        exact Or.inr ⟨rfl, rfl, rfl⟩
      · obtain ⟨rfl, rfl⟩ := Prod.mk.inj (Option.some.inj hs)
        exact Or.inl fun _ => rfl
    | two =>
      simp only [hmain] at hs
      split_ifs at hs <;> obtain ⟨rfl, rfl⟩ := Prod.mk.inj (Option.some.inj hs) <;>
        exact Or.inl fun _ => rfl

lemma Seen.mainLoop {w : Worker} (h : Seen cfg s w) (hinv : Inv cfg s)
    (hs : mainLoop cfg s = some (s', es)) : Seen cfg s' w := by
  obtain ⟨hinv', hmoves⟩ := moves_mainLoop hinv hs
  rcases mainLoop_frame hs with hnot | ⟨hmem, hworker, rfl⟩
  · exact seen_of_not_posted hinv' (hnot w)
  · apply h.keep
    · intro hw
      rwa [hworker] at hw
    · apply passed_of_quiet hmoves
      intro hf
      rwa [hworker] at hf
    · intro c _ hone
      rw [hmem, hone]

/-- The barrier of `w` makes its store visible to the other thread. -/
def Ordered (cfg : Config) : Prop :=
  cfg.fence = true ∨ cfg.cpu (.worker .one) = cfg.cpu (.worker .two)

lemma Seen.barrier {w : Worker} (h : Seen cfg s w) (hinv : Inv cfg s) (hcfg : Ordered cfg)
    (hpc : s.worker w = .stored) (hcond : ¬(cfg.fence = true ∧ ¬s.mem.Drained (cfg.cpu (.worker w)))) :
    s.mem.load (cfg.cpu (.worker w.other)) w.flag = 1 := by
  have hown := h.own hpc
  rcases hcfg with hfence | hcpu
  · -- the store has reached the memory, and nothing but ones is on its way there
    have hdrained : s.mem.Drained (cfg.cpu (.worker w)) := by
      by_contra hnot
      exact hcond ⟨hfence, hnot⟩
    have hposted : s.main.posted w = true := hinv.rounds.posted (by simp [hpc])
    rw [Tso.load_of_drained hdrained] at hown
    exact Tso.writeOut_eq (fun v hv => flag_eq_one_of_posted hinv hposted hv) hown
  · have hsame : cfg.cpu (.worker w.other) = cfg.cpu (.worker w) := by
      cases w with
      | one => exact hcpu.symm
      | two => exact hcpu
    rw [hsame, hown]

/-- The steps of a thread, seen from the other one -/
lemma Seen.of_local {w : Worker} (h : Seen cfg s w.other) (hlocal : Local cfg w s s')
    (hload : ∀ c, s'.mem.load c w.other.flag = s.mem.load c w.other.flag) :
    Seen cfg s' w.other := by
  apply h.keep
  · intro hw
    rwa [hlocal.pc] at hw
  · intro hw
    unfold Passed at hw ⊢
    rwa [hlocal.pc, hlocal.result_other] at hw
  · intro c _ hone
    rw [hload, hone]

lemma Seen.threadFunc {w : Worker} (h : ∀ w, Seen cfg s w) (hinv : Inv cfg s) (hcfg : Ordered cfg)
    (hs : threadFunc cfg s w = some (s', es)) : ∀ w, Seen cfg s' w := by
  suffices hboth : Seen cfg s' w ∧ Seen cfg s' w.other by
    intro w'
    by_cases hw : w' = w
    · rw [hw]
      exact hboth.1
    · rw [Worker.eq_other_of_ne hw]
      exact hboth.2
  unfold MemoryReordering.threadFunc at hs
  dsimp only at hs
  cases hpc : s.worker w with
  | waiting =>
    simp only [hpc] at hs
    split_ifs at hs with hcond
    obtain ⟨rfl, rfl⟩ := Prod.mk.inj (Option.some.inj hs)
    exact ⟨⟨by simp, by simp [Passed, result]⟩,
      (h w.other).of_local (local_start cfg s w _ .delaying) fun _ => rfl⟩
  | delaying =>
    simp only [hpc] at hs
    obtain ⟨rfl, rfl⟩ := Prod.mk.inj (Option.some.inj hs)
    refine ⟨⟨fun _ => ?_, by simp [Passed, result]⟩, (h w.other).of_local (local_storeFlag cfg s w .stored) ?_⟩
    · exact Tso.load_store_self ..
    · intro c
      exact Tso.load_store_of_ne _ _ _ _ (flag_other_ne w)
  | stored =>
    simp only [hpc] at hs
    split_ifs at hs with hcond
    obtain ⟨rfl, rfl⟩ := Prod.mk.inj (Option.some.inj hs)
    refine ⟨⟨by simp, fun _ => (h w).barrier hinv hcfg hpc hcond⟩,
      (h w.other).of_local (local_setWorker cfg s w .fenced) fun _ => rfl⟩
  | fenced =>
    simp only [hpc] at hs
    obtain ⟨rfl, rfl⟩ := Prod.mk.inj (Option.some.inj hs)
    refine ⟨⟨by simp, fun _ => (h w).other (Or.inl hpc)⟩,
      (h w.other).of_local (local_setWorker cfg s w _) fun _ => rfl⟩
  | loaded v =>
    simp only [hpc] at hs
    obtain ⟨rfl, rfl⟩ := Prod.mk.inj (Option.some.inj hs)
    have hload : ∀ c x, (s.mem.store (cfg.cpu (.worker w)) w.result v).load c (Worker.flag x) =
        s.mem.load c x.flag := by
      intro c x
      exact Tso.load_store_of_ne _ _ _ _ (flag_ne_result x w)
    refine ⟨⟨by simp, fun _ => ?_⟩,
      (h w.other).of_local (local_storeResult cfg s w v) fun c => hload c w.other⟩
    exact (hload _ w).trans ((h w).other (Or.inr (by simp [result, hpc])))
  | posting =>
    simp only [hpc] at hs
    split_ifs at hs with hcond
    obtain ⟨rfl, rfl⟩ := Prod.mk.inj (Option.some.inj hs)
    exact ⟨⟨by simp, fun _ => (h w).other (Or.inr (by simp [result, hpc]))⟩,
      (h w.other).of_local (local_post cfg s w _ .waiting) fun _ => rfl⟩

lemma Seen.step {a : Action} (h : ∀ w, Seen cfg s w) (hinv : Inv cfg s) (hcfg : Ordered cfg)
    (hs : step cfg s a = some (s', es)) : ∀ w, Seen cfg s' w := by
  cases a with
  | flush c =>
    simp only [MemoryReordering.step, Option.map_eq_some_iff] at hs
    obtain ⟨m, hm, heq⟩ := hs
    obtain ⟨rfl, rfl⟩ := Prod.mk.inj heq
    intro w
    exact (h w).flush hinv hm
  | worker w =>
    cases w with
    | one => exact Seen.threadFunc h hinv hcfg hs
    | two => exact Seen.threadFunc h hinv hcfg hs
  | main =>
    intro w
    exact (h w).mainLoop hinv hs

/-- In no round do both threads load zero. -/
structure Safe (cfg : Config) (s : State) : Prop where
  inv : Inv cfg s
  seen : ∀ w, Seen cfg s w
  apart : ∀ w, result cfg s w = some 0 → result cfg s w.other ≠ some 0
  detected : s.detected = 0

lemma Safe.step {a : Action} (h : Safe cfg s) (hcfg : Ordered cfg)
    (hs : step cfg s a = some (s', es)) : Safe cfg s' := by
  obtain ⟨hinv, hmoves⟩ := moves_of_step h.inv hs
  refine ⟨hinv, Seen.step h.seen h.inv hcfg hs, ?_, ?_⟩
  · cases hmoves with
    | quiet hresult =>
      intro w
      rw [hresult, hresult]
      exact h.apart w
    | load w v hload hnone hsome hother =>
      -- the other thread has passed its barrier if it has a result, so `w` loads one
      have hne : result cfg s' w.other = some 0 → v ≠ 0 := by
        intro hzero
        rw [hother] at hzero
        have hseen := (h.seen w.other).other (Or.inr (by simp [hzero]))
        rw [Worker.other_other, hload] at hseen
        omega
      intro w' hw'
      by_cases hww : w' = w
      · subst hww
        intro hzero
        exact hne hzero (Option.some.inj (hsome.symm.trans hw'))
      · obtain rfl := Worker.eq_other_of_ne hww
        rw [Worker.other_other, hsome]
        intro hzero
        exact hne hw' (Option.some.inj hzero)
    | next a b _ _ hnone =>
      intro w hw
      rw [hnone] at hw
      cases hw
    | detect _ _ hnone =>
      intro w hw
      rw [hnone] at hw
      cases hw
  · cases hmoves with
    | quiet _ _ hdetected => rw [hdetected, h.detected]
    | load _ _ _ _ _ _ _ hdetected => rw [hdetected, h.detected]
    | next _ _ _ _ _ _ _ hdetected => rw [hdetected, h.detected]
    | detect hone htwo => exact absurd htwo (h.apart .one hone)

lemma safe_init (cfg : Config) : Safe cfg init := by
  refine ⟨inv_init cfg, fun _ => seen_of_not_posted (inv_init cfg) rfl, ?_, rfl⟩
  intro w hw
  rw [(inv_init cfg).rounds.result_eq_none rfl] at hw
  cases hw

lemma Ordered.detected_eq_zero (hcfg : Ordered cfg) {as : List Action}
    (hrun : run (MemoryReordering.step cfg) init as = some (t, es)) : t.detected = 0 :=
  (run_invariant_state (MemoryReordering.step cfg) (Safe cfg)
    (fun _ _ _ _ h hs => h.step hcfg hs) (safe_init cfg) hrun).detected

/-- Both threads have been started and everything stored has reached the memory. -/
def ready : State :=
  ⟨⟨fun _ => 0, fun _ => []⟩, fun _ => 0, 0, fun _ => .delaying, .waitFirst, 1, 0⟩

lemma run_ready (cfg : Config) : run (step cfg) init
    [.main, .main, .flush (cfg.cpu .main), .flush (cfg.cpu .main), .main, .main, .worker .one,
      .worker .two] = some (ready, []) := by
  simp only [run, step, init, mainLoop, Tso.flush, Tso.store, postBegin, Tso.Drained, threadFunc1,
    threadFunc2, threadFunc, State.setWorker, ready]
  simp
  constructor <;> funext w <;> cases w <;> rfl

/-- Both threads have posted `end_sem` after loading zero. -/
def exchanged : State :=
  ⟨⟨fun | .X => 1 | .Y => 1 | .r1 => 0 | .r2 => 0, fun _ => []⟩, fun _ => 0, 2, fun _ => .waiting,
    .waitFirst, 1, 0⟩

/-- Both threads store, load and store their results before any store reaches the memory. -/
lemma run_exchanged (cfg : Config) (hfence : cfg.fence = false)
    (hcpu : cfg.cpu (.worker .one) ≠ cfg.cpu (.worker .two)) : run (step cfg) ready
    [.worker .one, .worker .two, .worker .one, .worker .two, .worker .one, .worker .two,
      .worker .one, .worker .two, .flush (cfg.cpu (.worker .one)), .flush (cfg.cpu (.worker .one)),
      .flush (cfg.cpu (.worker .two)), .flush (cfg.cpu (.worker .two)), .worker .one, .worker .two] =
      some (exchanged, [.loaded .one 0, .loaded .two 0]) := by
  simp [run, step, Tso.flush, Tso.store, Tso.load, Tso.writeOut, Tso.Drained, threadFunc1,
    threadFunc2, threadFunc, State.setWorker, ready, hfence, hcpu, hcpu.symm, Worker.flag,
    Worker.other, Worker.result, exchanged]
  refine ⟨⟨?_, ?_⟩, ?_⟩
  · funext x
    cases x <;> rfl
  · funext c
    by_cases hone : c = cfg.cpu (.worker .one)
    · simp [hone, hcpu]
    · by_cases htwo : c = cfg.cpu (.worker .two)
      · simp [htwo]
      · simp [hone, htwo]
  · funext w
    cases w <;> rfl

lemma run_detected (cfg : Config) : ∃ t es,
    run (step cfg) exchanged [.main, .main, .main, .main] = some (t, es) ∧ t.detected = 1 := by
  simp [run, step, mainLoop, exchanged, waitEnd, Tso.Drained, Tso.load, Tso.writeOut, wrap32]

/-- The detector can report a reordering if and only if the threads run on different processors and
the barrier is not a fence, so as it is built it never does when both threads have been bound. -/
theorem reordering_detectable_iff (cfg : Config) :
    ((∃ as t es, run (step cfg) init as = some (t, es) ∧ 0 < t.detected) ↔
      cfg.fence = false ∧ cfg.cpu (.worker .one) ≠ cfg.cpu (.worker .two)) ∧
    ∀ cpu bound as t es, (∀ w, bound w = true) →
      run (step (asBuilt cpu bound)) init as = some (t, es) → t.detected = 0 := by
  refine ⟨⟨?_, ?_⟩, fun cpu bound as t es hbound hrun => ?_⟩
  · rintro ⟨as, t, es, hrun, hdetected⟩
    by_contra hnot
    have hcfg : Ordered cfg := by
      unfold Ordered
      by_contra hc
      rw [not_or] at hc
      exact hnot ⟨by simpa using hc.1, hc.2⟩
    rw [hcfg.detected_eq_zero hrun] at hdetected
    exact absurd hdetected (lt_irrefl 0)
  · rintro ⟨hfence, hcpu⟩
    obtain ⟨t, es, hrun, hdetected⟩ := run_detected cfg
    refine ⟨_, t, _, (run_append_iff _ _ _ _ _ _).mpr ⟨_, _, _, run_ready cfg,
      (run_append_iff _ _ _ _ _ _).mpr ⟨_, _, _, run_exchanged cfg hfence hcpu, hrun, rfl⟩, rfl⟩, ?_⟩
    omega
  · refine Ordered.detected_eq_zero (Or.inr ?_) hrun
    simp [asBuilt, hbound]

end CodeC.MemoryReordering
