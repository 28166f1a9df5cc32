import CodeC.Library.Monitor

/-!
# No lost wake-ups in a monitor over counted resources

Each condition variable `c` stands for a number `avail q c` of units available in the object.
An operation that has to wait does so because no unit of its condition is left, and an
operation that adds a unit signals the condition. Then, as long as the object is open, a
thread stays blocked only while all units are already spoken for by woken threads. An
operation that closes the object broadcasts every condition, after which nobody is blocked.
-/

namespace CodeC.Library.Monitor

variable {Q ω ρ C : Type} {n : ℕ} [DecidableEq C]

/-- The number of threads blocked on `c` and not yet woken. -/
def blocked (thread : Fin n → Thread ω C) (c : C) : ℕ :=
  countWith (fun th => th.waitsOn = some c) thread

/-- The number of threads woken from `c` that have not yet resumed. -/
def awake (thread : Fin n → Thread ω C) (c : C) : ℕ :=
  countWith (fun th => th.wokenFrom = some c) thread

/-- The object counts units: `cond op` is the condition whose unit `op` takes. -/
structure Resource (body : Q → ω → Outcome Q ρ C) (I isOpen : Q → Prop) (cond : ω → Option C)
    (avail : Q → C → ℕ) (closing : ω → Prop) : Prop where
  inv_ret : ∀ {q op q' r signal broadcasts}, I q → body q op = .ret q' r signal broadcasts → I q'
  wait_spec : ∀ {q op c}, I q → body q op = .wait c →
    isOpen q ∧ cond op = some c ∧ avail q c = 0
  ret_spec : ∀ {q op q' r signal broadcasts}, I q →
    body q op = .ret q' r signal broadcasts → isOpen q' → isOpen q ∧
      ∀ c, avail q' c + (if cond op = some c then 1 else 0) ≤
        avail q c + (if signal = some c then 1 else 0)
  broadcast_spec : ∀ {q op q' r signal broadcasts}, body q op = .ret q' r signal broadcasts →
    broadcasts ≠ [] → ¬isOpen q' ∧ ∀ c, c ∈ broadcasts
  closing_spec : ∀ {q op q' r signal}, closing op → body q op ≠ .ret q' r signal []

/-- A closing operation has returned. -/
def CloseReturned (closing : ω → Prop) (es : List (Event ω ρ n)) : Prop :=
  ∃ t op, closing op ∧ Event.returned t op ∈ es

/-- What holds in every reachable state, after the events `es`. -/
structure WakeInv (I isOpen : Q → Prop) (cond : ω → Option C) (avail : Q → C → ℕ)
    (closing : ω → Prop) (s : State Q ω C n) (es : List (Event ω ρ n)) : Prop where
  obj_inv : I s.obj
  waiting_cond : ∀ t op c, s.thread t = .waiting op c → cond op = some c
  woken_cond : ∀ t op c, s.thread t = .woken op c → cond op = some c
  served : isOpen s.obj → ∀ c, 0 < blocked s.thread c → avail s.obj c ≤ awake s.thread c
  closed_broadcasts : ∀ t op c rest, s.thread t = .broadcasting op c rest →
    ¬isOpen s.obj ∧ ∀ d, d ∉ c :: rest → blocked s.thread d = 0
  closed_returned : CloseReturned closing es → ¬isOpen s.obj ∧ ∀ c, blocked s.thread c = 0

section counts

lemma blocked_update_same (f : Fin n → Thread ω C) (t : Fin n) (th : Thread ω C) (c : C)
    (h : th.waitsOn = some c ↔ (f t).waitsOn = some c) :
    blocked (Function.update f t th) c = blocked f c := by
  unfold blocked
  exact countWith_update_same (fun th => th.waitsOn = some c) f t th h

lemma awake_update_same (f : Fin n → Thread ω C) (t : Fin n) (th : Thread ω C) (c : C)
    (h : th.wokenFrom = some c ↔ (f t).wokenFrom = some c) :
    awake (Function.update f t th) c = awake f c := by
  unfold awake
  exact countWith_update_same (fun th => th.wokenFrom = some c) f t th h

omit [DecidableEq C] in
@[simp] lemma leave_waitsOn (op : ω) (broadcasts : List C) :
    (Thread.leave op broadcasts).waitsOn = none := by
  cases broadcasts <;> rfl

omit [DecidableEq C] in
@[simp] lemma leave_wokenFrom (op : ω) (broadcasts : List C) :
    (Thread.leave op broadcasts).wokenFrom = none := by
  cases broadcasts <;> rfl

omit [DecidableEq C] in
lemma leave_eq_broadcasting {op op' : ω} {broadcasts rest : List C} {c : C}
    (h : Thread.leave op broadcasts = .broadcasting op' c rest) : broadcasts = c :: rest := by
  cases broadcasts with
  | nil => simp [Thread.leave] at h
  | cons d ds =>
    simp only [Thread.leave, Thread.broadcasting.injEq] at h
    rw [h.2.1, h.2.2]

omit [DecidableEq C] in
lemma Ready.waitsOn {s : State Q ω C n} {t : Fin n} {op : ω} (h : Ready s t op) :
    (s.thread t).waitsOn = none := by
  rcases h with hidle | ⟨d, hwoken⟩
  · rw [hidle]
    rfl
  · rw [hwoken]
    rfl

/-- A thread that finishes its section was blocked on nothing. -/
lemma blocked_leave {s : State Q ω C n} {t : Fin n} {op : ω} (hready : Ready s t op)
    (broadcasts : List C) (c : C) :
    blocked (Function.update s.thread t (Thread.leave op broadcasts)) c = blocked s.thread c := by
  apply blocked_update_same
  simp [hready.waitsOn]

/-- A thread that finishes its section was at most one of those woken from its condition. -/
lemma awake_leave {s : State Q ω C n} {t : Fin n} {op : ω} {cond : ω → Option C}
    (hready : Ready s t op) (hcond : ∀ d, s.thread t = .woken op d → cond op = some d)
    (broadcasts : List C) (c : C) :
    awake s.thread c ≤ awake (Function.update s.thread t (Thread.leave op broadcasts)) c +
      (if cond op = some c then 1 else 0) := by
  by_cases hc : (s.thread t).wokenFrom = some c
  · rcases hready with hidle | ⟨d, hwoken⟩
    · simp [hidle, Thread.wokenFrom] at hc
    · have hd : d = c := by simpa [hwoken, Thread.wokenFrom] using hc
      rw [if_pos (hd ▸ hcond d hwoken)]
      have h := countWith_update_leave (fun th => th.wokenFrom = some c) s.thread t
        (Thread.leave op broadcasts) hc (by simp)
      unfold awake
      omega
  · rw [awake_update_same s.thread t _ c (by simp [hc])]
    omega

/-- A signal moves one blocked thread to the woken ones, unless nobody is blocked. -/
lemma delivered_counts {f f' : Fin n → Thread ω C} {signal : Option C}
    (h : Delivered f signal f') (c : C) :
    blocked f' c ≤ blocked f c ∧ (0 < blocked f' c →
      awake f c + (if signal = some c then 1 else 0) ≤ awake f' c) := by
  cases h with
  | unsignalled => simp
  | nobody d hd =>
    constructor
    · exact le_refl _
    · intro hpos
      have hne : d ≠ c := by
        rintro rfl
        have hz : blocked f d = 0 := (countWith_eq_zero_iff _ f).mpr hd
        omega
      simp [hne]
  | wakes d u op hu =>
    by_cases hdc : d = c
    · subst hdc
      have hb := countWith_update_leave (fun th : Thread ω C => th.waitsOn = some d) f u
        (.woken op d) (by simp [hu, Thread.waitsOn]) (by simp [Thread.waitsOn])
      have ha := countWith_update_enter (fun th : Thread ω C => th.wokenFrom = some d) f u
        (.woken op d) (by simp [hu, Thread.wokenFrom]) (by simp [Thread.wokenFrom])
      unfold blocked awake
      rw [if_pos rfl]
      omega
    · rw [blocked_update_same f u _ c (by simp [hu, Thread.waitsOn, hdc]),
        awake_update_same f u _ c (by simp [hu, Thread.wokenFrom, hdc])]
      simp [hdc]

omit [DecidableEq C] in
/-- A signal changes no thread but a blocked one, which it wakes. -/
lemma delivered_thread {f f' : Fin n → Thread ω C} {signal : Option C}
    (h : Delivered f signal f') (u : Fin n) :
    f' u = f u ∨ ∃ op c, f u = .waiting op c ∧ f' u = .woken op c := by
  cases h with
  | unsignalled => exact Or.inl rfl
  | nobody d hd => exact Or.inl rfl
  | wakes d v op hv =>
    by_cases huv : u = v
    · subst huv
      exact Or.inr ⟨op, d, hv, by simp⟩
    · exact Or.inl (by simp [huv])

lemma wakeAll_thread (f : Fin n → Thread ω C) (c : C) (u : Fin n) :
    wakeAll f c u = f u ∨ ∃ op, f u = .waiting op c ∧ wakeAll f c u = .woken op c := by
  unfold wakeAll
  by_cases hc : (f u).waitsOn = some c
  · obtain ⟨op, hop⟩ := waitsOn_eq_some hc
    exact Or.inr ⟨op, hop, by rw [if_pos hc, hop]; rfl⟩
  · exact Or.inl (if_neg hc)

/-- After the broadcast on `c` nobody is blocked on `c`, and nobody newly blocked elsewhere. -/
lemma blocked_broadcast (f : Fin n → Thread ω C) (t : Fin n) (op : ω) (c d : C) (rest : List C)
    (h : d = c ∨ blocked f d = 0) :
    blocked (Function.update (wakeAll f c) t (Thread.leave op rest)) d = 0 := by
  unfold blocked
  rw [countWith_eq_zero_iff]
  intro u
  by_cases hut : u = t
  · subst hut
    simp
  · rw [Function.update_of_ne hut]
    rcases wakeAll_thread f c u with hsame | ⟨op', hop, hwoken⟩
    · rw [hsame]
      rcases h with rfl | hzero
      · intro hu
        unfold wakeAll at hsame
        obtain ⟨op', hop⟩ := waitsOn_eq_some hu
        rw [if_pos hu, hop] at hsame
        simp [Thread.wake] at hsame
      · exact (countWith_eq_zero_iff _ f).mp hzero u
    · rw [hwoken]
      simp [Thread.waitsOn]

end counts

section invariant

variable {body : Q → ω → Outcome Q ρ C} {I isOpen : Q → Prop} {cond : ω → Option C}
  {avail : Q → C → ℕ} {closing : ω → Prop}

omit [DecidableEq C] in
/-- The threads after a section of `t`: `t` has left, and a blocked thread may be woken. -/
lemma ret_thread {f f' : Fin n → Thread ω C} {t : Fin n} {op : ω} {signal : Option C}
    {broadcasts : List C}
    (h : Delivered (Function.update f t (Thread.leave op broadcasts)) signal f') (u : Fin n) :
    f' u = f u ∨ (u = t ∧ f' u = Thread.leave op broadcasts) ∨
      ∃ op' c, f u = .waiting op' c ∧ f' u = .woken op' c := by
  by_cases hut : u = t
  · subst hut
    rcases delivered_thread h u with hsame | ⟨op', c, hwait, hwoken⟩
    · rw [Function.update_self] at hsame
      exact Or.inr (Or.inl ⟨rfl, hsame⟩)
    · rw [Function.update_self] at hwait
      have hnone := leave_waitsOn op broadcasts
      rw [hwait] at hnone
      simp [Thread.waitsOn] at hnone
  · have hu := delivered_thread h u
    rw [Function.update_of_ne hut] at hu
    rcases hu with hsame | hwake
    · exact Or.inl hsame
    · exact Or.inr (Or.inr hwake)

omit [DecidableEq C] in
/-- A thread after the update of `t` is either `t` or as it was. -/
lemma update_thread {f : Fin n → Thread ω C} {t u : Fin n} {x y : Thread ω C}
    (h : Function.update f t x u = y) : (u = t ∧ x = y) ∨ (u ≠ t ∧ f u = y) := by
  by_cases hut : u = t
  · subst hut
    exact Or.inl ⟨rfl, by simpa using h⟩
  · exact Or.inr ⟨hut, by simpa [hut] using h⟩

lemma ret_blocked_le {s : State Q ω C n} {f' : Fin n → Thread ω C} {t : Fin n} {op : ω}
    {signal : Option C} {broadcasts : List C} (hready : Ready s t op)
    (h : Delivered (Function.update s.thread t (Thread.leave op broadcasts)) signal f') (c : C) :
    blocked f' c ≤ blocked s.thread c := by
  rw [← blocked_leave hready broadcasts c]
  exact (delivered_counts h c).1

lemma closeReturned_append {es fs : List (Event ω ρ n)} :
    CloseReturned closing (es ++ fs) ↔ CloseReturned closing es ∨ CloseReturned closing fs := by
  unfold CloseReturned
  constructor
  · rintro ⟨t, op, hop, hmem⟩
    rcases List.mem_append.mp hmem with h | h
    · exact Or.inl ⟨t, op, hop, h⟩
    · exact Or.inr ⟨t, op, hop, h⟩
  · rintro (⟨t, op, hop, h⟩ | ⟨t, op, hop, h⟩)
    · exact ⟨t, op, hop, List.mem_append_left fs h⟩
    · exact ⟨t, op, hop, List.mem_append_right es h⟩

omit [DecidableEq C] in
lemma closeReturned_leaveEvents {t : Fin n} {op : ω} {broadcasts : List C}
    (h : CloseReturned closing (leaveEvents t op broadcasts : List (Event ω ρ n))) :
    closing op ∧ broadcasts = [] := by
  obtain ⟨u, op', hop, hmem⟩ := h
  cases broadcasts with
  | nil =>
    simp only [leaveEvents, List.mem_singleton, Event.returned.injEq] at hmem
    exact ⟨hmem.2 ▸ hop, rfl⟩
  | cons c rest => simp [leaveEvents] at hmem

lemma wakeInv_wait (hres : Resource body I isOpen cond avail closing) {s : State Q ω C n}
    {es : List (Event ω ρ n)} (h : WakeInv I isOpen cond avail closing s es) {t : Fin n} {op : ω}
    {c : C} (hready : Ready s t op) (hbody : body s.obj op = .wait c) :
    WakeInv I isOpen cond avail closing
      { s with thread := Function.update s.thread t (.waiting op c) } es := by
  obtain ⟨hopen, hcond, hnone⟩ := hres.wait_spec h.obj_inv hbody
  refine ⟨h.obj_inv, ?_, ?_, ?_, ?_, fun hclosed => absurd hopen (h.closed_returned hclosed).1⟩
  · intro u op' d hu
    rcases update_thread hu with ⟨_, hnew⟩ | ⟨_, hold⟩
    · cases hnew
      exact hcond
    · exact h.waiting_cond u op' d hold
  · intro u op' d hu
    rcases update_thread hu with ⟨_, hnew⟩ | ⟨_, hold⟩
    · cases hnew
    · exact h.woken_cond u op' d hold
  · intro _ d hpos
    by_cases hdc : d = c
    · rw [hdc, hnone]
      exact Nat.zero_le _
    · have hblocked : blocked (Function.update s.thread t (.waiting op c)) d = blocked s.thread d := by
        apply blocked_update_same
        rw [hready.waitsOn]
        simp [Thread.waitsOn, Ne.symm hdc]
      have hawake : awake (Function.update s.thread t (.waiting op c)) d = awake s.thread d := by
        apply awake_update_same
        rcases hready with hidle | ⟨e, hwoken⟩
        · simp [hidle, Thread.wokenFrom]
        · have hec : e = c := by simpa [h.woken_cond t op e hwoken] using hcond
          simp [hwoken, Thread.wokenFrom, hec, Ne.symm hdc]
      change avail s.obj d ≤ awake (Function.update s.thread t (.waiting op c)) d
      rw [hawake]
      exact h.served hopen d (hblocked ▸ hpos)
  · intro u op' d rest hu
    rcases update_thread hu with ⟨_, hnew⟩ | ⟨_, hold⟩
    · cases hnew
    · exact absurd hopen (h.closed_broadcasts u op' d rest hold).1

lemma wakeInv_ret (hres : Resource body I isOpen cond avail closing) {s : State Q ω C n}
    {es : List (Event ω ρ n)} (h : WakeInv I isOpen cond avail closing s es) {t : Fin n} {op : ω}
    {q : Q} {r : ρ} {signal : Option C} {broadcasts : List C} {thread : Fin n → Thread ω C}
    (hready : Ready s t op) (hbody : body s.obj op = .ret q r signal broadcasts)
    (hdel : Delivered (Function.update s.thread t (Thread.leave op broadcasts)) signal thread) :
    WakeInv I isOpen cond avail closing ⟨q, thread⟩
      (es ++ .entered t op r :: leaveEvents t op broadcasts) := by
  have hstill : ∀ {c}, ¬isOpen s.obj ∧ blocked s.thread c = 0 →
      ¬isOpen q ∧ blocked thread c = 0 := by
    rintro c ⟨hclosed, hzero⟩
    have hle := ret_blocked_le hready hdel c
    exact ⟨fun hq => hclosed (hres.ret_spec h.obj_inv hbody hq).1, by omega⟩
  refine ⟨hres.inv_ret h.obj_inv hbody, ?_, ?_, ?_, ?_, ?_⟩
  · intro u op' c hu
    change thread u = _ at hu
    rcases ret_thread hdel u with hsame | ⟨_, hleave⟩ | ⟨op'', d, _, hwoken⟩
    · exact h.waiting_cond u op' c (hsame ▸ hu)
    · have hnone := leave_waitsOn op broadcasts
      rw [← hleave, hu] at hnone
      simp [Thread.waitsOn] at hnone
    · simp [hwoken] at hu
  · intro u op' c hu
    change thread u = _ at hu
    rcases ret_thread hdel u with hsame | ⟨_, hleave⟩ | ⟨op'', d, hwait, hwoken⟩
    · exact h.woken_cond u op' c (hsame ▸ hu)
    · have hnone := leave_wokenFrom op broadcasts
      rw [← hleave, hu] at hnone
      simp [Thread.wokenFrom] at hnone
    · rw [hwoken] at hu
      cases hu
      exact h.waiting_cond u op' c hwait
  · intro hopen c hpos
    obtain ⟨hopen', hbalance⟩ := hres.ret_spec h.obj_inv hbody hopen
    have hserved := h.served hopen' c (lt_of_lt_of_le hpos (ret_blocked_le hready hdel c))
    have hleave := awake_leave hready (fun d => h.woken_cond t op d) broadcasts c
    have hdelivered := (delivered_counts hdel c).2 hpos
    have hunits := hbalance c
    change avail q c ≤ awake thread c
    omega
  · intro u op' c rest hu
    change thread u = _ at hu
    rcases ret_thread hdel u with hsame | ⟨_, hleave⟩ | ⟨op'', d, _, hwoken⟩
    · have hold := h.closed_broadcasts u op' c rest (hsame ▸ hu)
      refine ⟨fun hq => hold.1 (hres.ret_spec h.obj_inv hbody hq).1, fun d hd => ?_⟩
      exact (hstill ⟨hold.1, hold.2 d hd⟩).2
    · have hlist := leave_eq_broadcasting (hleave ▸ hu)
      obtain ⟨hclosed, hall⟩ := hres.broadcast_spec hbody (by simp [hlist])
      exact ⟨hclosed, fun d hd => absurd (hlist ▸ hall d) hd⟩
    · simp [hwoken] at hu
  · intro hret
    rw [closeReturned_append, ← List.singleton_append, closeReturned_append] at hret
    rcases hret with hold | hnew | hnew
    · obtain ⟨hclosed, hzero⟩ := h.closed_returned hold
      exact ⟨fun hq => hclosed (hres.ret_spec h.obj_inv hbody hq).1,
        fun c => (hstill ⟨hclosed, hzero c⟩).2⟩
    · simp [CloseReturned] at hnew
    · obtain ⟨hclosing, hnil⟩ := closeReturned_leaveEvents hnew
      rw [hnil] at hbody
      exact absurd hbody (hres.closing_spec hclosing)

lemma wakeInv_broadcast {s : State Q ω C n} {es : List (Event ω ρ n)}
    (h : WakeInv I isOpen cond avail closing s es) {t : Fin n} {op : ω} {c : C} {rest : List C}
    (ht : s.thread t = .broadcasting op c rest) :
    WakeInv I isOpen cond avail closing
      { s with thread := Function.update (wakeAll s.thread c) t (Thread.leave op rest) }
      (es ++ leaveEvents t op rest) := by
  obtain ⟨hclosed, hzero⟩ := h.closed_broadcasts t op c rest ht
  refine ⟨h.obj_inv, ?_, ?_, fun hopen => absurd hopen hclosed, ?_, ?_⟩
  · intro u op' d hu
    rcases update_thread hu with ⟨_, hleave⟩ | ⟨_, hother⟩
    · have hnone := leave_waitsOn op rest
      simp [hleave, Thread.waitsOn] at hnone
    · rcases wakeAll_thread s.thread c u with hsame | ⟨op'', _, hwoken⟩
      · exact h.waiting_cond u op' d (hsame ▸ hother)
      · simp [hwoken] at hother
  · intro u op' d hu
    rcases update_thread hu with ⟨_, hleave⟩ | ⟨_, hother⟩
    · have hnone := leave_wokenFrom op rest
      simp [hleave, Thread.wokenFrom] at hnone
    · rcases wakeAll_thread s.thread c u with hsame | ⟨op'', hwait, hwoken⟩
      · exact h.woken_cond u op' d (hsame ▸ hother)
      · rw [hwoken] at hother
        cases hother
        exact h.waiting_cond u op' c hwait
  · intro u op' d rest' hu
    refine ⟨hclosed, fun e he => blocked_broadcast s.thread t op c e rest ?_⟩
    rcases update_thread hu with ⟨_, hleave⟩ | ⟨_, hother⟩
    · have hlist := leave_eq_broadcasting hleave
      by_cases hec : e = c
      · exact Or.inl hec
      · exact Or.inr (hzero e (by simpa [hec, hlist] using he))
    · rcases wakeAll_thread s.thread c u with hsame | ⟨op'', _, hwoken⟩
      · exact Or.inr ((h.closed_broadcasts u op' d rest' (hsame ▸ hother)).2 e he)
      · simp [hwoken] at hother
  · intro hret
    refine ⟨hclosed, fun e => blocked_broadcast s.thread t op c e rest ?_⟩
    rcases closeReturned_append.mp hret with hold | hnew
    · exact Or.inr ((h.closed_returned hold).2 e)
    · have hnil := (closeReturned_leaveEvents hnew).2
      by_cases hec : e = c
      · exact Or.inl hec
      · exact Or.inr (hzero e (by simp [hec, hnil]))

lemma wakeInv_spurious {s : State Q ω C n} {es : List (Event ω ρ n)}
    (h : WakeInv I isOpen cond avail closing s es) {t : Fin n} {op : ω} {c : C}
    (ht : s.thread t = .waiting op c) :
    WakeInv I isOpen cond avail closing
      { s with thread := Function.update s.thread t (.woken op c) } es := by
  have hcounts := delivered_counts (Delivered.wakes c t op ht)
  have hle : ∀ d, blocked (Function.update s.thread t (.woken op c)) d ≤ blocked s.thread d :=
    fun d => (hcounts d).1
  refine ⟨h.obj_inv, ?_, ?_, ?_, ?_, ?_⟩
  · intro u op' d hu
    rcases update_thread hu with ⟨_, hnew⟩ | ⟨_, hold⟩
    · cases hnew
    · exact h.waiting_cond u op' d hold
  · intro u op' d hu
    rcases update_thread hu with ⟨_, hnew⟩ | ⟨_, hold⟩
    · cases hnew
      exact h.waiting_cond t op c ht
    · exact h.woken_cond u op' d hold
  · intro hopen d hpos
    have hserved := h.served hopen d (lt_of_lt_of_le hpos (hle d))
    have hawake := (hcounts d).2 hpos
    change avail s.obj d ≤ awake (Function.update s.thread t (.woken op c)) d
    omega
  · intro u op' d rest hu
    rcases update_thread hu with ⟨_, hnew⟩ | ⟨_, hsame⟩
    · cases hnew
    · have hold := h.closed_broadcasts u op' d rest hsame
      exact ⟨hold.1, fun e he => Nat.le_zero.mp (hold.2 e he ▸ hle e)⟩
  · intro hret
    have hold := h.closed_returned hret
    exact ⟨hold.1, fun e => Nat.le_zero.mp (hold.2 e ▸ hle e)⟩

/-- No wake-up is lost: the invariant holds after every run that starts with idle threads. -/
theorem wakeInv_run (hres : Resource body I isOpen cond avail closing) {q : Q} (hq : I q)
    {t : State Q ω C n} {as : List (Action ω n)} {es : List (Event ω ρ n)}
    (hrun : run (step body) (start q) as = some (t, es)) :
    WakeInv I isOpen cond avail closing t es := by
  apply run_invariant_events (step body) (WakeInv I isOpen cond avail closing) ?_ ?_ hrun
  · intro s g a s' fs h hs
    cases step_move hs with
    | wait t op c hready hbody =>
      rw [List.append_nil]
      exact wakeInv_wait hres h hready hbody
    | ret t op q r signal broadcasts thread hready hbody hdel =>
      exact wakeInv_ret hres h hready hbody hdel
    | broadcast t op c rest ht => exact wakeInv_broadcast h ht
    | spurious t op c ht =>
      rw [List.append_nil]
      exact wakeInv_spurious h ht
  · have hzero : ∀ c, blocked (start q : State Q ω C n).thread c = 0 := by
      intro c
      apply (countWith_eq_zero_iff _ _).mpr
      intro u
      simp [start, Thread.waitsOn]
    refine ⟨hq, ?_, ?_, ?_, ?_, ?_⟩
    · simp [start]
    · simp [start]
    · intro _ c hpos
      rw [hzero c] at hpos
      exact absurd hpos (lt_irrefl 0)
    · simp [start]
    · simp [CloseReturned]

end invariant

end CodeC.Library.Monitor
