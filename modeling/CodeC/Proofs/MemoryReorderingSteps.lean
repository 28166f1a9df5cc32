import CodeC.MemoryReordering

/-!
# The steps of the reordering detector

The semaphores let each thread run once in each round, so that `main` compares the results of one
round. `Moves` says what a step does to these results.
-/

namespace CodeC.MemoryReordering
open Library

variable {cfg : Config} {s s' t : State} {es : List Event}

lemma Worker.other_other (w : Worker) : w.other.other = w := by cases w <;> rfl

lemma Worker.other_ne (w : Worker) : w.other ≠ w := by cases w <;> decide

lemma Worker.eq_other_of_ne {w w' : Worker} (h : w' ≠ w) : w' = w.other := by
  cases w <;> cases w' <;> first | rfl | exact absurd rfl h

@[simp] lemma setWorker_self (s : State) (w : Worker) (pc : WorkerPc) :
    (s.setWorker w pc).worker w = pc := Function.update_self ..

@[simp] lemma setWorker_other (s : State) (w : Worker) (pc : WorkerPc) :
    (s.setWorker w pc).worker w.other = s.worker w.other :=
  Function.update_of_ne (Worker.other_ne w) ..

/-- `begin_sem` of `w` has been posted in this round. -/
def MainPc.posted : MainPc → Worker → Bool
  | .clearX, _ => false
  | .clearY, _ => false
  | .post .one, _ => false
  | .post .two, .one => true
  | .post .two, .two => false
  | .waitFirst, _ => true
  | .waitSecond, _ => true
  | .check _, _ => true

/-- How often `main` has passed `end_sem` in this round -/
def MainPc.collected : MainPc → ℕ
  | .waitSecond => 1
  | .check _ => 2
  | _ => 0

/-- `w` has posted `end_sem` in this round. -/
def State.Done (s : State) (w : Worker) : Prop :=
  s.main.posted w = true ∧ s.beginSem w = 0 ∧ s.worker w = .waiting

instance (s : State) (w : Worker) : Decidable (s.Done w) := inferInstanceAs (Decidable (_ ∧ _))

def State.doneCount (s : State) (w : Worker) : ℕ := if s.Done w then 1 else 0

structure Rounds (s : State) : Prop where
  quiet : ∀ w, s.main.posted w = false → s.beginSem w = 0 ∧ s.worker w = .waiting
  once : ∀ w, s.beginSem w = 0 ∨ s.beginSem w = 1 ∧ s.worker w = .waiting
  count : s.endSem + s.main.collected = s.doneCount .one + s.doneCount .two

lemma doneCount_le (s : State) (w : Worker) : s.doneCount w ≤ 1 := by
  unfold State.doneCount
  split_ifs <;> omega

lemma rounds_init : Rounds init :=
  ⟨fun _ _ => ⟨rfl, rfl⟩, fun _ => Or.inl rfl, rfl⟩

/-- A thread that is not at `sem_wait` has been started in this round. -/
lemma Rounds.posted (h : Rounds s) {w : Worker} (hw : s.worker w ≠ .waiting) :
    s.main.posted w = true := by
  by_contra hp
  exact hw (h.quiet w (by simpa using hp)).2

lemma Rounds.beginSem_eq_zero (h : Rounds s) {w : Worker} (hw : s.worker w ≠ .waiting) :
    s.beginSem w = 0 := by
  rcases h.once w with h0 | h1
  · exact h0
  · exact absurd h1.2 hw

/-- When `main` compares, both threads are done. -/
lemma Rounds.done_of_check (h : Rounds s) {k : Worker} (hmain : s.main = .check k) (w : Worker) :
    s.Done w := by
  have hcount := h.count
  rw [hmain] at hcount
  have hone := doneCount_le s .one
  have htwo := doneCount_le s .two
  have hw : s.doneCount w = 1 := by
    change s.endSem + 2 = _ at hcount
    cases w <;> omega
  unfold State.doneCount at hw
  by_contra hnot
  rw [if_neg hnot] at hw
  cases hw

lemma doneCount_of_not {w : Worker} (h : ¬s.Done w) : s.doneCount w = 0 := if_neg h

lemma doneCount_of_done {w : Worker} (h : s.Done w) : s.doneCount w = 1 := if_pos h

lemma doneCount_congr {w : Worker} (h : s'.Done w ↔ s.Done w) : s'.doneCount w = s.doneCount w := by
  unfold State.doneCount
  simp only [h]

/-- A step of a thread that has been started -/
lemma Rounds.worker_step (h : Rounds s) {w : Worker} (hmain : s'.main = s.main)
    (hposted : s.main.posted w = true) (hbegin : s'.beginSem w = 0)
    (hsem : s'.beginSem w.other = s.beginSem w.other)
    (hpc : s'.worker w.other = s.worker w.other)
    (hcount : s'.endSem + s.doneCount w = s.endSem + s'.doneCount w) : Rounds s' := by
  have hdone : s'.doneCount w.other = s.doneCount w.other := by
    apply doneCount_congr
    unfold State.Done
    rw [hmain, hsem, hpc]
  refine ⟨?_, ?_, ?_⟩
  · intro w' hw'
    rw [hmain] at hw'
    by_cases hne : w' = w
    · rw [hne, hposted] at hw'
      cases hw'
    · obtain rfl := Worker.eq_other_of_ne hne
      rw [hsem, hpc]
      exact h.quiet w.other hw'
  · intro w'
    by_cases hne : w' = w
    · rw [hne]
      exact Or.inl hbegin
    · rw [Worker.eq_other_of_ne hne, hsem, hpc]
      exact h.once w.other
  · have hold := h.count
    rw [hmain]
    cases w with
    | one =>
      change s'.doneCount .two = s.doneCount .two at hdone
      omega
    | two =>
      change s'.doneCount .one = s.doneCount .one at hdone
      omega

/-- A zero on its way to a flag is there before `main` posts, a result on its way to the memory before
its thread does. -/
structure Buffered (cfg : Config) (s : State) : Prop where
  flag : ∀ c w v, (Worker.flag w, v) ∈ s.mem.buffer c →
    v = 1 ∨ c = cfg.cpu .main ∧ (s.main = .clearY ∨ s.main = .post .one)
  result : ∀ c w v, (Worker.result w, v) ∈ s.mem.buffer c →
    c = cfg.cpu (.worker w) ∧ s.worker w = .posting

/-- What `w` has loaded in this round -/
def result (cfg : Config) (s : State) (w : Worker) : Option ℕ :=
  match s.worker w with
  | .loaded v => some v
  | .posting => some (s.mem.load (cfg.cpu (.worker w)) w.result)
  | .waiting => if s.Done w then some (s.mem.load (cfg.cpu (.worker w)) w.result) else none
  | _ => none

lemma result_congr {w : Worker} (hpc : s'.worker w = s.worker w) (hdone : s'.Done w ↔ s.Done w)
    (hload : s'.mem.load (cfg.cpu (.worker w)) w.result = s.mem.load (cfg.cpu (.worker w)) w.result) :
    result cfg s' w = result cfg s w := by
  unfold result
  rw [hpc, hload]
  simp only [hdone]

lemma result_of_done {w : Worker} (h : s.Done w) :
    result cfg s w = some (s.mem.load (cfg.cpu (.worker w)) w.result) := by
  unfold result
  rw [h.2.2]
  exact if_pos h

/-- A thread that is done has left its result in the memory. -/
lemma Buffered.load_result (h : Buffered cfg s) {w : Worker} (hw : s.worker w ≠ .posting) (c : ℕ) :
    s.mem.load c w.result = s.mem.load (cfg.cpu (.worker w)) w.result := by
  have hnot : ∀ c v, (w.result, v) ∉ s.mem.buffer c := fun c v hv => hw (h.result c w v hv).2
  rw [Tso.load_of_notMem (hnot c), Tso.load_of_notMem (hnot _)]

structure Inv (cfg : Config) (s : State) : Prop where
  rounds : Rounds s
  buffered : Buffered cfg s
  compared : s.main = .check .two → result cfg s .one = some 0

lemma inv_init (cfg : Config) : Inv cfg init := by
  refine ⟨rounds_init, ⟨?_, ?_⟩, ?_⟩
  · intro c w v hv
    cases hv
  · intro c w v hv
    cases hv
  · intro hc
    cases hc

/-- What a step does to the results of the round -/
inductive Moves (cfg : Config) (s s' : State) : List Event → Prop
  | quiet (hresult : ∀ w, result cfg s' w = result cfg s w) (hi : s'.i = s.i)
      (hdetected : s'.detected = s.detected) : Moves cfg s s' []
  | load (w : Worker) (v : ℕ) (hload : s.mem.load (cfg.cpu (.worker w)) w.other.flag = v)
      (hnone : result cfg s w = none) (hsome : result cfg s' w = some v)
      (hother : result cfg s' w.other = result cfg s w.other) (hi : s'.i = s.i)
      (hdetected : s'.detected = s.detected) : Moves cfg s s' [.loaded w v]
  | next (a b : ℕ) (hone : result cfg s .one = some a) (htwo : result cfg s .two = some b)
      (hnone : ∀ w, result cfg s' w = none) (hi : s'.i = wrap32 (s.i + 1)) (hzero : ¬(a = 0 ∧ b = 0))
      (hdetected : s'.detected = s.detected) : Moves cfg s s' []
  | detect (hone : result cfg s .one = some 0) (htwo : result cfg s .two = some 0)
      (hnone : ∀ w, result cfg s' w = none) (hi : s'.i = wrap32 (s.i + 1))
      (hdetected : s'.detected = wrap32 (s.detected + 1)) : Moves cfg s s' [.report s'.detected s.i]

lemma flag_ne_result (w w' : Worker) : w.flag ≠ w'.result := by
  cases w <;> cases w' <;> decide

lemma flag_other_ne (w : Worker) : w.other.flag ≠ w.flag := by cases w <;> decide

/-- What a step of `w` leaves alone -/
structure Local (cfg : Config) (w : Worker) (s s' : State) : Prop where
  main : s'.main = s.main
  i : s'.i = s.i
  detected : s'.detected = s.detected
  sem : s'.beginSem w.other = s.beginSem w.other
  pc : s'.worker w.other = s.worker w.other
  load : s'.mem.load (cfg.cpu (.worker w.other)) w.other.result =
    s.mem.load (cfg.cpu (.worker w.other)) w.other.result
  flag : ∀ c w v, (Worker.flag w, v) ∈ s'.mem.buffer c → (w.flag, v) ∈ s.mem.buffer c ∨ v = 1
  result : ∀ c w' v, (Worker.result w', v) ∈ s'.mem.buffer c → (w'.result, v) ∈ s.mem.buffer c ∨
    w' = w ∧ c = cfg.cpu (.worker w) ∧ s'.worker w = .posting

lemma Local.result_other {w : Worker} (h : Local cfg w s s') :
    MemoryReordering.result cfg s' w.other = MemoryReordering.result cfg s w.other := by
  refine result_congr h.pc ?_ h.load
  unfold State.Done
  rw [h.main, h.sem, h.pc]

/-- A thread that is not done takes a step, so `main` does not compare yet. -/
lemma Local.inv {w : Worker} (hlocal : Local cfg w s s') (h : Inv cfg s)
    (hposted : s.main.posted w = true) (hnot : ¬s.Done w) (hbegin : s'.beginSem w = 0)
    (hcount : s'.endSem = s.endSem + s'.doneCount w)
    (hdrained : s.worker w = .posting → s.mem.Drained (cfg.cpu (.worker w))) : Inv cfg s' := by
  refine ⟨?_, ⟨?_, ?_⟩, ?_⟩
  · apply h.rounds.worker_step hlocal.main hposted hbegin hlocal.sem hlocal.pc
    rw [doneCount_of_not hnot]
    exact hcount
  · intro c w' v hv
    rw [hlocal.main]
    rcases hlocal.flag c w' v hv with hold | hone
    · exact h.buffered.flag c w' v hold
    · exact Or.inl hone
  · intro c w' v hv
    rcases hlocal.result c w' v hv with hold | ⟨rfl, hc, hpc⟩
    · obtain ⟨hc, hpc⟩ := h.buffered.result c w' v hold
      by_cases hw : w' = w
      · subst hw
        have hempty := List.isEmpty_iff.mp (hdrained hpc)
        rw [hc, hempty] at hold
        cases hold
      · obtain rfl := Worker.eq_other_of_ne hw
        exact ⟨hc, hlocal.pc.trans hpc⟩
    · exact ⟨hc, hpc⟩
  · intro hcheck
    rw [hlocal.main] at hcheck
    exact absurd (h.rounds.done_of_check hcheck w) hnot

/-- A step of `w` that keeps its result -/
lemma Local.quiet {w : Worker} (hlocal : Local cfg w s s')
    (hresult : MemoryReordering.result cfg s' w = MemoryReordering.result cfg s w) :
    Moves cfg s s' [] := by
  refine Moves.quiet ?_ hlocal.i hlocal.detected
  intro w'
  by_cases hw : w' = w
  · rw [hw]
    exact hresult
  · rw [Worker.eq_other_of_ne hw]
    exact hlocal.result_other

/-- A step of `w` that changes only where it is -/
lemma local_setWorker (cfg : Config) (s : State) (w : Worker) (pc : WorkerPc) :
    Local cfg w s (s.setWorker w pc) :=
  ⟨rfl, rfl, rfl, rfl, setWorker_other .., rfl, fun _ _ _ hv => Or.inl hv, fun _ _ _ hv => Or.inl hv⟩

lemma local_start (cfg : Config) (s : State) (w : Worker) (k : ℕ) (pc : WorkerPc) :
    Local cfg w s ({ s with beginSem := Function.update s.beginSem w k }.setWorker w pc) :=
  ⟨rfl, rfl, rfl, Function.update_of_ne (Worker.other_ne w) .., setWorker_other .., rfl,
    fun _ _ _ hv => Or.inl hv, fun _ _ _ hv => Or.inl hv⟩

lemma local_post (cfg : Config) (s : State) (w : Worker) (k : ℕ) (pc : WorkerPc) :
    Local cfg w s ({ s with endSem := k }.setWorker w pc) :=
  ⟨rfl, rfl, rfl, rfl, setWorker_other .., rfl, fun _ _ _ hv => Or.inl hv,
    fun _ _ _ hv => Or.inl hv⟩

lemma local_storeFlag (cfg : Config) (s : State) (w : Worker) (pc : WorkerPc) :
    Local cfg w s ({ s with mem := s.mem.store (cfg.cpu (.worker w)) w.flag 1 }.setWorker w pc) := by
  refine ⟨rfl, rfl, rfl, rfl, setWorker_other .., ?_, ?_, ?_⟩
  · exact Tso.load_store_of_ne _ _ _ _ (flag_ne_result _ _).symm
  · intro c w' v hv
    rcases Tso.mem_buffer_store.mp hv with hold | ⟨-, -, hone⟩
    · exact Or.inl hold
    · exact Or.inr hone
  · intro c w' v hv
    rcases Tso.mem_buffer_store.mp hv with hold | ⟨-, hx, -⟩
    · exact Or.inl hold
    · exact absurd hx.symm (flag_ne_result w w')

lemma result_inj {w w' : Worker} (h : w'.result = w.result) : w' = w := by
  cases w <;> cases w' <;> first | rfl | cases h

lemma local_storeResult (cfg : Config) (s : State) (w : Worker) (v : ℕ) :
    Local cfg w s
      ({ s with mem := s.mem.store (cfg.cpu (.worker w)) w.result v }.setWorker w .posting) := by
  refine ⟨rfl, rfl, rfl, rfl, setWorker_other .., ?_, ?_, ?_⟩
  · apply Tso.load_store_of_ne
    intro he
    exact Worker.other_ne w (result_inj he)
  · intro c w' v' hv
    rcases Tso.mem_buffer_store.mp hv with hold | ⟨-, hx, -⟩
    · exact Or.inl hold
    · exact absurd hx (flag_ne_result w' w)
  · intro c w' v' hv
    rcases Tso.mem_buffer_store.mp hv with hold | ⟨hc, hx, -⟩
    · exact Or.inl hold
    · exact Or.inr ⟨result_inj hx, hc, setWorker_self ..⟩

lemma not_done_of_pc {w : Worker} (h : s.worker w ≠ .waiting) : ¬s.Done w := fun hd => h hd.2.2

/-- A step of a thread between its two semaphore operations -/
lemma Local.inv_active {w : Worker} (hlocal : Local cfg w s s') (h : Inv cfg s)
    (hw : s.worker w ≠ .waiting) (hw' : s'.worker w ≠ .waiting) (hpost : s.worker w ≠ .posting)
    (hsem : s'.beginSem w = s.beginSem w) (hend : s'.endSem = s.endSem) : Inv cfg s' := by
  apply hlocal.inv h (h.rounds.posted hw) (not_done_of_pc hw)
  · rw [hsem]
    exact h.rounds.beginSem_eq_zero hw
  · rw [doneCount_of_not (not_done_of_pc hw'), hend, Nat.add_zero]
  · intro hp
    exact absurd hp hpost

lemma moves_start (h : Inv cfg s) {w : Worker} (hpc : s.worker w = .waiting)
    (hpos : 0 < s.beginSem w)
    (hs' : s' = { s with beginSem := Function.update s.beginSem w (s.beginSem w - 1) }.setWorker w
      .delaying) : Inv cfg s' ∧ Moves cfg s s' [] := by
  have hnot : ¬s.Done w := by
    intro hd
    rw [hd.2.1] at hpos
    exact absurd hpos (Nat.lt_irrefl 0)
  have hposted : s.main.posted w = true := by
    by_contra hp
    rw [(h.rounds.quiet w (by simpa using hp)).1] at hpos
    exact absurd hpos (Nat.lt_irrefl 0)
  have hbegin : s'.beginSem w = 0 := by
    subst hs'
    change Function.update s.beginSem w (s.beginSem w - 1) w = 0
    rw [Function.update_self]
    rcases h.rounds.once w with h0 | h1
    · rw [h0]
    · rw [h1.1]
  have hnot' : ¬s'.Done w := by
    apply not_done_of_pc
    simp [hs']
  have hlocal : Local cfg w s s' := by
    subst hs'
    exact local_start ..
  refine ⟨hlocal.inv h hposted hnot hbegin ?_ (by simp [hpc]), hlocal.quiet ?_⟩
  · rw [doneCount_of_not hnot', hs']
    rfl
  · unfold result
    simp [hs', hpc, hnot]

lemma moves_post (h : Inv cfg s) {w : Worker} (hpc : s.worker w = .posting)
    (hdrained : s.mem.Drained (cfg.cpu (.worker w)))
    (hs' : s' = { s with endSem := s.endSem + 1 }.setWorker w .waiting) :
    Inv cfg s' ∧ Moves cfg s s' [] := by
  have hw : s.worker w ≠ .waiting := by simp [hpc]
  have hbegin := h.rounds.beginSem_eq_zero hw
  have hposted := h.rounds.posted hw
  have hlocal : Local cfg w s s' := by
    subst hs'
    exact local_post ..
  have hdone : s'.Done w := by
    subst hs'
    exact ⟨hposted, hbegin, setWorker_self ..⟩
  refine ⟨hlocal.inv h hposted (not_done_of_pc hw) hdone.2.1 ?_ (fun _ => hdrained),
    hlocal.quiet ?_⟩
  · rw [doneCount_of_done hdone, hs']
    rfl
  · rw [result_of_done hdone]
    unfold result
    rw [hpc, hs']
    rfl

lemma moves_threadFunc (h : Inv cfg s) {w : Worker} (hs : threadFunc cfg s w = some (s', es)) :
    Inv cfg s' ∧ Moves cfg s s' es := by
  unfold threadFunc at hs
  dsimp only at hs
  cases hpc : s.worker w with
  | waiting =>
    simp only [hpc] at hs
    split_ifs at hs with hcond
    obtain ⟨hs', rfl⟩ := Prod.mk.inj (Option.some.inj hs)
    exact moves_start h hpc hcond.2 hs'.symm
  | delaying =>
    simp only [hpc] at hs
    obtain ⟨rfl, rfl⟩ := Prod.mk.inj (Option.some.inj hs)
    have hlocal := local_storeFlag cfg s w .stored
    refine ⟨hlocal.inv_active h ?_ ?_ ?_ rfl rfl, hlocal.quiet ?_⟩
    · simp [hpc]
    · simp
    · simp [hpc]
    · simp [result, hpc]
  | stored =>
    simp only [hpc] at hs
    split_ifs at hs with hcond
    obtain ⟨rfl, rfl⟩ := Prod.mk.inj (Option.some.inj hs)
    have hlocal := local_setWorker cfg s w .fenced
    refine ⟨hlocal.inv_active h ?_ ?_ ?_ rfl rfl, hlocal.quiet ?_⟩
    · simp [hpc]
    · simp
    · simp [hpc]
    · simp [result, hpc]
  | fenced =>
    simp only [hpc] at hs
    obtain ⟨rfl, rfl⟩ := Prod.mk.inj (Option.some.inj hs)
    have hlocal := local_setWorker cfg s w (.loaded (s.mem.load (cfg.cpu (.worker w)) w.other.flag))
    refine ⟨hlocal.inv_active h ?_ ?_ ?_ rfl rfl, Moves.load w _ rfl ?_ ?_ hlocal.result_other rfl rfl⟩
    · simp [hpc]
    · simp
    · simp [hpc]
    · simp [result, hpc]
    · simp [result]
  | loaded v =>
    simp only [hpc] at hs
    obtain ⟨rfl, rfl⟩ := Prod.mk.inj (Option.some.inj hs)
    have hlocal := local_storeResult cfg s w v
    refine ⟨hlocal.inv_active h ?_ ?_ ?_ rfl rfl, hlocal.quiet ?_⟩
    · simp [hpc]
    · simp
    · simp [hpc]
    · have hload := Tso.load_store_self s.mem (cfg.cpu (.worker w)) w.result v
      simp only [result, hpc, setWorker_self]
      exact congrArg some hload
  | posting =>
    simp only [hpc] at hs
    split_ifs at hs with hcond
    obtain ⟨hs', rfl⟩ := Prod.mk.inj (Option.some.inj hs)
    exact moves_post h hpc hcond hs'.symm

lemma moves_flush (h : Inv cfg s) {c : ℕ} {m : Tso ℕ Loc ℕ} (hm : s.mem.flush c = some m) :
    Inv cfg { s with mem := m } ∧ Moves cfg s { s with mem := m } [] := by
  have hresult : ∀ w, result cfg { s with mem := m } w = result cfg s w := by
    intro w
    refine result_congr rfl Iff.rfl ?_
    by_cases hc : cfg.cpu (.worker w) = c
    · rw [hc]
      exact Tso.load_flush_self hm _
    · apply Tso.load_flush_of_notMem _ hm
      intro v hv
      exact hc (h.buffered.result c w v hv).1.symm
  refine ⟨⟨⟨h.rounds.quiet, h.rounds.once, h.rounds.count⟩, ⟨?_, ?_⟩, ?_⟩, Moves.quiet hresult rfl rfl⟩
  · intro c' w v hv
    exact h.buffered.flag c' w v (Tso.mem_buffer_of_flush hm hv)
  · intro c' w v hv
    exact h.buffered.result c' w v (Tso.mem_buffer_of_flush hm hv)
  · intro hmain
    rw [hresult]
    exact h.compared hmain

lemma not_done_of_posted {w : Worker} (hp : s.main.posted w = false) : ¬s.Done w := by
  intro hd
  rw [hd.1] at hp
  cases hp

lemma Rounds.result_eq_none (h : Rounds s) {w : Worker} (hp : s.main.posted w = false) :
    result cfg s w = none := by
  unfold result
  rw [(h.quiet w hp).2]
  exact if_neg (not_done_of_posted hp)

/-- `main` is not on its way to the first `sem_post` with its zeros. -/
lemma Buffered.flag_eq_one (h : Buffered cfg s) (hy : s.main ≠ .clearY) (hp : s.main ≠ .post .one)
    {c : ℕ} {w : Worker} {v : ℕ} (hv : (w.flag, v) ∈ s.mem.buffer c) : v = 1 := by
  rcases h.flag c w v hv with hone | ⟨-, hmain | hmain⟩
  · exact hone
  · exact absurd hmain hy
  · exact absurd hmain hp

lemma moves_clear (h : Inv cfg s) {w : Worker} {next : MainPc}
    (hmain : s.main = .clearX ∨ s.main = .clearY) (hnext : next = .clearY ∨ next = .post .one)
    (hs' : s' = { s with mem := s.mem.store (cfg.cpu .main) w.flag 0, main := next }) :
    Inv cfg s' ∧ Moves cfg s s' [] := by
  have hold : ∀ w, s.main.posted w = false := by
    intro w'
    rcases hmain with hm | hm <;> rw [hm] <;> rfl
  have hnew : ∀ w, s'.main.posted w = false := by
    intro w'
    rw [hs']
    rcases hnext with hn | hn <;> rw [hn] <;> rfl
  have hcollected : s'.main.collected = s.main.collected := by
    rw [hs']
    rcases hmain with hm | hm <;> rcases hnext with hn | hn <;> rw [hm, hn] <;> rfl
  have hrounds : Rounds s' := by
    refine ⟨fun w' _ => ?_, fun w' => ?_, ?_⟩
    · rw [hs']
      exact h.rounds.quiet w' (hold w')
    · rw [hs']
      exact h.rounds.once w'
    · have hcount := h.rounds.count
      have hdone : ∀ w, s'.doneCount w = s.doneCount w := by
        intro w'
        apply doneCount_congr
        unfold State.Done
        rw [hold w', hnew w']
        simp
      rw [hcollected, hdone, hdone, ← hcount, hs']
  refine ⟨⟨hrounds, ⟨?_, ?_⟩, ?_⟩, Moves.quiet ?_ (by rw [hs']) (by rw [hs'])⟩
  · intro c w' v hv
    rw [hs'] at hv
    rcases Tso.mem_buffer_store.mp hv with hbuf | ⟨hc, -, -⟩
    · rcases h.buffered.flag c w' v hbuf with hone | ⟨hc, -⟩
      · exact Or.inl hone
      · exact Or.inr ⟨hc, by rw [hs']; exact hnext⟩
    · exact Or.inr ⟨hc, by rw [hs']; exact hnext⟩
  · intro c w' v hv
    rw [hs'] at hv ⊢
    rcases Tso.mem_buffer_store.mp hv with hbuf | ⟨-, hx, -⟩
    · exact h.buffered.result c w' v hbuf
    · exact absurd hx.symm (flag_ne_result w w')
  · intro hcheck
    have := hnew .one
    rw [hcheck] at this
    cases this
  · intro w'
    rw [hrounds.result_eq_none (hnew w'), h.rounds.result_eq_none (hold w')]

lemma moves_postBegin (h : Inv cfg s) {w : Worker} {next : MainPc}
    (hold : s.main.posted w = false) (hnew : next.posted w = true)
    (hother : next.posted w.other = s.main.posted w.other)
    (hcollected : next.collected = s.main.collected) (hcheck : next ≠ .check .two)
    (hdrained : s.mem.Drained (cfg.cpu .main))
    (hs' : s' = { s with beginSem := Function.update s.beginSem w (s.beginSem w + 1), main := next }) :
    Inv cfg s' ∧ Moves cfg s s' [] := by
  obtain ⟨hzero, hwaiting⟩ := h.rounds.quiet w hold
  have hbegin : s'.beginSem w = 1 := by
    rw [hs']
    change Function.update s.beginSem w (s.beginSem w + 1) w = 1
    rw [Function.update_self, hzero]
  have hsem : s'.beginSem w.other = s.beginSem w.other := by
    rw [hs']
    exact Function.update_of_ne (Worker.other_ne w) ..
  have hworker : s'.worker = s.worker := by rw [hs']
  have hposted : s'.main.posted w.other = s.main.posted w.other := by rw [hs', hother]
  have hdone : ¬s'.Done w := by
    intro hd
    have hz := hd.2.1
    rw [hbegin] at hz
    cases hz
  have hdoneOther : s'.Done w.other ↔ s.Done w.other := by
    unfold State.Done
    rw [hposted, hsem, hworker]
  have hcount : s'.doneCount .one + s'.doneCount .two = s.doneCount .one + s.doneCount .two := by
    have hw : s'.doneCount w = s.doneCount w := by
      rw [doneCount_of_not hdone, doneCount_of_not (not_done_of_posted hold)]
    have hw' := doneCount_congr hdoneOther
    cases w with
    | one => rw [hw, show s'.doneCount .two = s.doneCount .two from hw']
    | two => rw [hw, show s'.doneCount .one = s.doneCount .one from hw']
  have hempty : s.mem.buffer (cfg.cpu .main) = [] := List.isEmpty_iff.mp hdrained
  refine ⟨⟨⟨?_, ?_, ?_⟩, ⟨?_, ?_⟩, ?_⟩, Moves.quiet ?_ (by rw [hs']) (by rw [hs'])⟩
  · intro w' hw'
    by_cases hne : w' = w
    · rw [hne, hs', hnew] at hw'
      cases hw'
    · obtain rfl := Worker.eq_other_of_ne hne
      rw [hsem, hworker]
      exact h.rounds.quiet w.other (hposted ▸ hw')
  · intro w'
    by_cases hne : w' = w
    · rw [hne, hworker]
      exact Or.inr ⟨hbegin, hwaiting⟩
    · obtain rfl := Worker.eq_other_of_ne hne
      rw [hsem, hworker]
      exact h.rounds.once w.other
  · rw [hcount, ← h.rounds.count, hs', hcollected]
  · intro c w' v hv
    left
    rw [hs'] at hv
    rcases h.buffered.flag c w' v hv with hone | ⟨hc, -⟩
    · exact hone
    · rw [hc, hempty] at hv
      cases hv
  · intro c w' v hv
    rw [hs'] at hv ⊢
    exact h.buffered.result c w' v hv
  · intro hc
    rw [hs'] at hc
    exact absurd hc hcheck
  · intro w'
    by_cases hne : w' = w
    · rw [hne, h.rounds.result_eq_none hold]
      unfold result
      rw [hworker, hwaiting]
      exact if_neg hdone
    · obtain rfl := Worker.eq_other_of_ne hne
      exact result_congr (by rw [hworker]) hdoneOther (by rw [hs'])

/-- `main` goes on within the second half of a round. -/
lemma moves_collect (h : Inv cfg s) {next : MainPc} {endSem : ℕ}
    (hold : ∀ w, s.main.posted w = true) (hnew : ∀ w, next.posted w = true)
    (hcount : endSem + next.collected = s.endSem + s.main.collected)
    (hcheck : next = .check .two → result cfg s .one = some 0)
    (hs' : s' = { s with endSem := endSem, main := next }) :
    Inv cfg s' ∧ Moves cfg s s' [] := by
  have hdone : ∀ w, s'.Done w ↔ s.Done w := by
    intro w
    unfold State.Done
    rw [hs', hold w, hnew w]
  have hresult : ∀ w, result cfg s' w = result cfg s w := by
    intro w
    exact result_congr (by rw [hs']) (hdone w) (by rw [hs'])
  have hmain : s.main ≠ .clearY ∧ s.main ≠ .post .one := by
    constructor <;> intro hm <;> have := hold .one <;> rw [hm] at this <;> cases this
  refine ⟨⟨⟨?_, ?_, ?_⟩, ⟨?_, ?_⟩, ?_⟩, Moves.quiet hresult (by rw [hs']) (by rw [hs'])⟩
  · intro w hw
    rw [hs', hnew w] at hw
    cases hw
  · intro w
    rw [hs']
    exact h.rounds.once w
  · rw [doneCount_congr (hdone .one), doneCount_congr (hdone .two), ← h.rounds.count, hs']
    exact hcount
  · intro c w v hv
    rw [hs'] at hv
    exact Or.inl (h.buffered.flag_eq_one hmain.1 hmain.2 hv)
  · intro c w v hv
    rw [hs'] at hv ⊢
    exact h.buffered.result c w v hv
  · intro hc
    rw [hresult]
    rw [hs'] at hc
    exact hcheck hc

/-- `main` begins the next round. -/
lemma inv_next (h : Inv cfg s) {k : Worker} (hmain : s.main = .check k) {i detected : ℤ}
    (hs' : s' = { s with main := .clearX, i := i, detected := detected }) :
    Inv cfg s' ∧ ∀ w, result cfg s' w = none := by
  have hdone := h.rounds.done_of_check hmain
  have hend : s.endSem = 0 := by
    have hcount := h.rounds.count
    rw [doneCount_of_done (hdone .one), doneCount_of_done (hdone .two), hmain] at hcount
    change s.endSem + 2 = 2 at hcount
    omega
  have hposted : ∀ w, s'.main.posted w = false := by
    intro w
    rw [hs']
    rfl
  have hrounds : Rounds s' := by
    refine ⟨fun w _ => ?_, fun w => ?_, ?_⟩
    · rw [hs']
      exact (hdone w).2
    · rw [hs']
      exact Or.inl (hdone w).2.1
    · have hnot : ∀ w, ¬s'.Done w := by
        intro w hd
        have := hd.1
        rw [hposted w] at this
        cases this
      rw [doneCount_of_not (hnot .one), doneCount_of_not (hnot .two), hs']
      exact hend
  refine ⟨⟨hrounds, ⟨?_, ?_⟩, ?_⟩, fun w => hrounds.result_eq_none (hposted w)⟩
  · intro c w v hv
    rw [hs'] at hv
    exact Or.inl (h.buffered.flag_eq_one (by simp [hmain]) (by simp [hmain]) hv)
  · intro c w v hv
    rw [hs'] at hv ⊢
    exact h.buffered.result c w v hv
  · intro hc
    rw [hs'] at hc
    cases hc

/-- `main` reads the result that `w` has loaded in this round. -/
lemma Inv.result_eq_load (h : Inv cfg s) {k : Worker} (hmain : s.main = .check k) (w : Worker) (c : ℕ) :
    result cfg s w = some (s.mem.load c w.result) := by
  have hdone := h.rounds.done_of_check hmain w
  rw [result_of_done hdone, h.buffered.load_result (by simp [hdone.2.2]) c]

lemma moves_check {w : Worker} (h : Inv cfg s) (hmain : s.main = .check w)
    (hs : mainLoop cfg s = some (s', es)) : Inv cfg s' ∧ Moves cfg s s' es := by
  have hone := h.result_eq_load hmain .one (cfg.cpu .main)
  have htwo := h.result_eq_load hmain .two (cfg.cpu .main)
  cases w with
  | one =>
    simp only [mainLoop, hmain] at hs
    split_ifs at hs with hzero
    · obtain ⟨hs', rfl⟩ := Prod.mk.inj (Option.some.inj hs)
      refine moves_collect h (fun w => by rw [hmain]; rfl) (fun _ => rfl) ?_ ?_ hs'.symm
      · rw [hmain]
        rfl
      · intro _
        rw [hone]
        exact congrArg some hzero
    · obtain ⟨hs', rfl⟩ := Prod.mk.inj (Option.some.inj hs)
      obtain ⟨hinv, hnone⟩ := inv_next h hmain hs'.symm
      exact ⟨hinv, Moves.next _ _ hone htwo hnone (by rw [← hs']) (fun hc => hzero hc.1)
        (by rw [← hs'])⟩
  | two =>
    simp only [mainLoop, hmain] at hs
    split_ifs at hs with hzero
    · obtain ⟨hs', rfl⟩ := Prod.mk.inj (Option.some.inj hs)
      obtain ⟨hinv, hnone⟩ := inv_next h hmain hs'.symm
      have hreport : wrap32 (s.detected + 1) = s'.detected := by rw [← hs']
      rw [hreport]
      refine ⟨hinv, Moves.detect (h.compared hmain) ?_ hnone (by rw [← hs']) hreport.symm⟩
      rw [htwo]
      exact congrArg some hzero
    · obtain ⟨hs', rfl⟩ := Prod.mk.inj (Option.some.inj hs)
      obtain ⟨hinv, hnone⟩ := inv_next h hmain hs'.symm
      exact ⟨hinv, Moves.next _ _ hone htwo hnone (by rw [← hs']) (fun hc => hzero hc.2)
        (by rw [← hs'])⟩

lemma moves_mainLoop (h : Inv cfg s) (hs : mainLoop cfg s = some (s', es)) :
    Inv cfg s' ∧ Moves cfg s s' es := by
  cases hmain : s.main with
  | clearX =>
    simp only [mainLoop, hmain] at hs
    obtain ⟨hs', rfl⟩ := Prod.mk.inj (Option.some.inj hs)
    exact moves_clear (w := .one) h (Or.inl hmain) (Or.inl rfl) hs'.symm
  | clearY =>
    simp only [mainLoop, hmain] at hs
    obtain ⟨hs', rfl⟩ := Prod.mk.inj (Option.some.inj hs)
    exact moves_clear (w := .two) h (Or.inr hmain) (Or.inr rfl) hs'.symm
  | post w =>
    cases w with
    | one =>
      simp only [mainLoop, hmain, postBegin] at hs
      split_ifs at hs with hdrained
      obtain ⟨hs', rfl⟩ := Prod.mk.inj (Option.some.inj hs)
      apply moves_postBegin h _ rfl _ _ (by simp) hdrained hs'.symm <;> rw [hmain] <;> rfl
    | two =>
      simp only [mainLoop, hmain, postBegin] at hs
      split_ifs at hs with hdrained
      obtain ⟨hs', rfl⟩ := Prod.mk.inj (Option.some.inj hs)
      apply moves_postBegin h _ rfl _ _ (by simp) hdrained hs'.symm <;> rw [hmain] <;> rfl
  | waitFirst =>
    simp only [mainLoop, hmain, waitEnd] at hs
    split_ifs at hs with hcond
    obtain ⟨hs', rfl⟩ := Prod.mk.inj (Option.some.inj hs)
    refine moves_collect h (fun w => by rw [hmain]; rfl) (fun _ => rfl) ?_ (by simp) hs'.symm
    rw [hmain]
    change s.endSem - 1 + 1 = s.endSem + 0
    omega
  | waitSecond =>
    simp only [mainLoop, hmain, waitEnd] at hs
    split_ifs at hs with hcond
    obtain ⟨hs', rfl⟩ := Prod.mk.inj (Option.some.inj hs)
    refine moves_collect h (fun w => by rw [hmain]; rfl) (fun _ => rfl) ?_ (by simp) hs'.symm
    rw [hmain]
    change s.endSem - 1 + 2 = s.endSem + 1
    omega
  | check w => exact moves_check h hmain hs

lemma moves_of_step (h : Inv cfg s) {a : Action} (hs : step cfg s a = some (s', es)) :
    Inv cfg s' ∧ Moves cfg s s' es := by
  cases a with
  | flush c =>
    simp only [step, Option.map_eq_some_iff] at hs
    obtain ⟨m, hm, heq⟩ := hs
    obtain ⟨rfl, rfl⟩ := Prod.mk.inj heq
    exact moves_flush h hm
  | worker w =>
    cases w with
    | one => exact moves_threadFunc h hs
    | two => exact moves_threadFunc h hs
  | main => exact moves_mainLoop h hs

end CodeC.MemoryReordering
