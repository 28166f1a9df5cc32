import CodeC.ShmBlock4

/-!
# What `refcount_` of `shmblock4.cpp` counts

`OpenOnly` leaves an object attached when `CheckValid` fails, without having counted it. Its later
open calls return true and its destructor decrements the count, so from there on `refcount_` no
longer is the number of objects that have opened the segment.
-/

namespace CodeC.ShmBlock4
open Library

variable {n : ℕ}

/-- For each live object, the segment on which an open call of it has returned true. -/
def record (h : Fin n → Option ℕ) : Event n → Fin n → Option ℕ
  | .opened i g => Function.update h i (some g)
  | .destroyed i => Function.update h i none
  | .unlinked _ => h
  | .crashed _ => h

def history (es : List (Event n)) : Fin n → Option ℕ := observe record (fun _ => none) es

lemma history_append (es fs : List (Event n)) :
    history (es ++ fs) = observe record (history es) fs :=
  observe_append record (fun _ => none) es fs

/-- The number of live objects that have opened segment `g`. -/
def users (h : Fin n → Option ℕ) (g : ℕ) : ℕ := countWith (· = some g) h

/-- `refcount_` of every segment is the number of its users. -/
def Counted (m : Memory) (h : Fin n → Option ℕ) : Prop :=
  ∀ g, (m.segment g).refcount = users h g

/-- The object is attached to a segment by an open call that failed in `CheckValid`. -/
def Uncounted (b : ShmBlock) : Prop := b.state ≠ none ∧ b.buffer = none

/-- `OpenOrCreate` creates the segment and cannot map it. -/
def Unlinks (create : Bool) (m : Memory) (b : ShmBlock) (f : Faults) : Prop :=
  b.managedShm = .null ∧ create = true ∧ f.shmCreate = false ∧ m.name = none ∧
    f.ftruncate = false ∧ 0 ≤ b.cap ∧ (f.mmap = true ∨ b.cap = 0)

/-- The open call increments a `refcount_` that is the greatest `int`. -/
def Overflows (create : Bool) (m : Memory) (b : ShmBlock) (f : Faults) : Prop :=
  b.managedShm = .null ∧ (create = true → f.shmCreate = false) ∧ f.shmOpen = false ∧
    f.fstat = false ∧ f.mmap = false ∧
    ∃ g, m.name = some g ∧ (m.segment g).size ≠ 0 ∧ checkValid (m.segment g) b = true ∧
      (m.segment g).refcount = 2 ^ 31 - 1

/-- What makes an open call wrong. -/
def CallBreaks (create : Bool) (m : Memory) (b : ShmBlock) (f : Faults) : Prop :=
  Uncounted b ∨ Unlinks create m b f ∨ Overflows create m b f

/-- The step is an open call or a destructor of an object that failed in `CheckValid` before, an
`OpenOrCreate` that cannot map its new segment, or an open call that overflows `refcount_`. -/
def Breaks (s : State n) : Action n → Prop
  | .construct _ _ _ => False
  | .openOrCreate i f => ∃ b ∈ s.block i, CallBreaks true s.memory b f
  | .openOnly i f => ∃ b ∈ s.block i, CallBreaks false s.memory b f
  | .acquireBlockToWrite i f =>
    ∃ b ∈ s.block i, Unlinks true s.memory b f ∨ Overflows true s.memory b f
  | .acquireBlockToRead i f => ∃ b ∈ s.block i, Overflows false s.memory b f
  | .destroy i => ∃ b ∈ s.block i, Uncounted b

/-- Everything an open call can do. -/
inductive Result (create : Bool) (m : Memory) (b : ShmBlock) (f : Faults) : Call → Prop
  | again (hm : b.managedShm ≠ .null) : Result create m b f ⟨m, b, true, false⟩
  | refused (b' : ShmBlock) (hm : b.managedShm = .null)
      (hb : b' = b ∨ b' = { b with managedShm := .failed } ∨ ∃ g, b' = b.attach g)
      (hu : ¬Unlinks create m b f) (ho : ¬Overflows create m b f) :
    Result create m b f ⟨m, b', false, false⟩
  | counted (g : ℕ) (hm : b.managedShm = .null) (hname : m.name = some g)
      (hu : ¬Unlinks create m b f)
      (ho : Overflows create m b f ↔ (m.segment g).refcount = 2 ^ 31 - 1) :
    Result create m b f
      ⟨m.increaseRefCount g, { b.attach g with buffer := some g }, true, false⟩
  | truncated (hm : b.managedShm = .null) (hu : ¬Unlinks create m b f)
      (ho : ¬Overflows create m b f) :
    Result create m b f ⟨m.create 0, b, false, false⟩
  | unmapped (hm : b.managedShm = .null) (hu : Unlinks create m b f) :
    Result create m b f
      ⟨(m.create b.cap.toNat).shmUnlink, { b with managedShm := .failed }, false, true⟩
  | created (hm : b.managedShm = .null) (hu : ¬Unlinks create m b f)
      (ho : ¬Overflows create m b f) :
    Result create m b f
      ⟨((m.create b.cap.toNat).construct m.created b).increaseRefCount m.created,
        { b.attach m.created with buffer := some m.created }, true, false⟩

/-- The part of `OpenOnly` that `OpenOrCreate` shares. -/
lemma openOnly_result {create : Bool} (m : Memory) (b : ShmBlock) (f : Faults)
    (hcreate : create = true → f.shmCreate = false ∧ m.name ≠ none) :
    Result create m b f (openOnly m b f) := by
  unfold openOnly
  by_cases hm : b.managedShm = .null
  · rw [if_neg (not_not.mpr hm)]
    have hu : ¬Unlinks create m b f := by
      rintro ⟨-, hc, -, hname, -⟩
      exact (hcreate hc).2 hname
    cases hname : m.name with
    | none =>
      exact .refused b hm (Or.inl rfl) hu (by simp [Overflows, hname])
    | some g =>
      simp only
      by_cases hopen : (f.shmOpen || f.fstat) = true
      · rw [if_pos hopen]
        refine .refused b hm (Or.inl rfl) hu ?_
        rintro ⟨-, -, h1, h2, -⟩
        simp [h1, h2] at hopen
      rw [if_neg hopen]
      by_cases hmap : f.mmap = true ∨ (m.segment g).size = 0
      · rw [if_pos hmap]
        refine .refused _ hm (Or.inr (Or.inl rfl)) hu ?_
        rintro ⟨-, -, -, -, h1, g', hg, h2, -⟩
        obtain rfl := Option.some.inj (hname.symm.trans hg)
        simp [h1, h2] at hmap
      rw [if_neg hmap]
      by_cases hvalid : checkValid (m.segment g) b = true
      · rw [if_neg (by simp [hvalid])]
        refine .counted g hm hname hu ?_
        simp only [Bool.or_eq_true, not_or, Bool.not_eq_true] at hopen hmap
        constructor
        · rintro ⟨-, -, -, -, -, g', hg, -, -, hmax⟩
          obtain rfl := Option.some.inj (hname.symm.trans hg)
          exact hmax
        · intro hmax
          exact ⟨hm, fun hc => (hcreate hc).1, hopen.1, hopen.2, hmap.1, g, hname, hmap.2, hvalid,
            hmax⟩
      · rw [if_pos (by simp [hvalid])]
        refine .refused _ hm (Or.inr (Or.inr ⟨g, rfl⟩)) hu ?_
        rintro ⟨-, -, -, -, -, g', hg, -, h1, -⟩
        obtain rfl := Option.some.inj (hname.symm.trans hg)
        exact hvalid h1
  · rw [if_pos hm]
    exact .again hm

lemma openOrCreate_result (m : Memory) (b : ShmBlock) (f : Faults) :
    Result true m b f (openOrCreate m b f) := by
  unfold openOrCreate
  by_cases hm : b.managedShm = .null
  · rw [if_neg (not_not.mpr hm)]
    by_cases hc : f.shmCreate = true
    · rw [if_pos hc]
      exact .refused b hm (Or.inl rfl) (by simp [Unlinks, hc]) (by simp [Overflows, hc])
    rw [if_neg hc]
    rw [Bool.not_eq_true] at hc
    cases hname : m.name with
    | some g => exact openOnly_result m b f fun _ => ⟨hc, by simp [hname]⟩
    | none =>
      simp only
      have ho : ¬Overflows true m b f := by simp [Overflows, hname]
      by_cases htrunc : f.ftruncate = true ∨ b.cap < 0
      · rw [if_pos htrunc]
        refine .truncated hm ?_ ho
        rintro ⟨-, -, -, -, h1, h2, -⟩
        obtain htrunc | htrunc := htrunc
        · simp [h1] at htrunc
        · exact absurd htrunc (not_lt.mpr h2)
      rw [if_neg htrunc]
      by_cases hmap : f.mmap = true ∨ b.cap = 0
      · rw [if_pos hmap]
        simp only [not_or, Bool.not_eq_true, not_lt] at htrunc
        exact .unmapped hm ⟨hm, rfl, hc, hname, htrunc.1, htrunc.2, hmap⟩
      · rw [if_neg hmap]
        exact .created hm (fun hu => hmap hu.2.2.2.2.2.2) ho
  · rw [if_pos hm]
    exact .again hm

/-- `state_` points into the mapped segment, and `buffer_` is null or does so too. -/
structure ShmBlock.Attached (b : ShmBlock) : Prop where
  state_iff : ∀ g, b.state = some g ↔ b.managedShm = .segment g
  buffer_imp : ∀ g, b.buffer = some g → b.managedShm = .segment g

lemma ShmBlock.Attached.state_of_null {b : ShmBlock} (h : b.Attached)
    (hm : b.managedShm = .null) : b.state = none := by
  cases hs : b.state with
  | none => rfl
  | some g =>
    rw [(h.state_iff g).mp hs] at hm
    cases hm

lemma ShmBlock.Attached.buffer_of_null {b : ShmBlock} (h : b.Attached)
    (hm : b.managedShm = .null) : b.buffer = none := by
  cases hs : b.buffer with
  | none => rfl
  | some g =>
    rw [h.buffer_imp g hs] at hm
    cases hm

/-- An attached object that is counted has its buffer in the segment. -/
lemma ShmBlock.Attached.buffer_of_counted {b : ShmBlock} (h : b.Attached) (hcounted : ¬Uncounted b)
    {g : ℕ} (hm : b.managedShm = .segment g) : b.buffer = some g := by
  cases hbuf : b.buffer with
  | none => exact absurd ⟨by simp [(h.state_iff g).mpr hm], hbuf⟩ hcounted
  | some g' =>
    have hg := h.buffer_imp g' hbuf
    rw [hm] at hg
    cases hg
    rfl

/-- The users of a segment are the live objects with a buffer in it, and `refcount_` is their
number. Segments that have not been created count nobody. -/
structure Inv (s : State n) (h : Fin n → Option ℕ) : Prop where
  counted : Counted s.memory h
  bounded : ∀ g, (s.memory.segment g).refcount < 2 ^ 31
  opened : ∀ i, h i = (s.block i).bind ShmBlock.buffer
  attached : ∀ i b, s.block i = some b → b.Attached
  fresh : ∀ g, s.memory.created ≤ g → (s.memory.segment g).refcount = 0
  named : ∀ g, s.memory.name = some g → g < s.memory.created

lemma inv_start : Inv (start : State n) (history []) := by
  refine ⟨fun g => ?_, by simp [start], by simp [start, history], by simp [start],
    by simp [start], by simp [start]⟩
  have hnone : users (history ([] : List (Event n))) g = 0 := by
    rw [users, countWith_eq_zero_iff]
    simp [history]
  simp [start, hnone]

lemma users_open {h : Fin n → Option ℕ} {i : Fin n} {g : ℕ} (hi : h i = none) (g' : ℕ) :
    users (Function.update h i (some g)) g' = users h g' + if g' = g then 1 else 0 := by
  unfold users
  by_cases hg : g' = g
  · rw [if_pos hg]
    exact countWith_update_enter _ h i _ (by simp [hi]) (by simp [hg])
  · rw [if_neg hg]
    exact countWith_update_same _ h i _ (by simp [hi, Ne.symm hg])

lemma users_close {h : Fin n → Option ℕ} {i : Fin n} {g : ℕ} (hi : h i = some g) (g' : ℕ) :
    users (Function.update h i none) g' + (if g' = g then 1 else 0) = users h g' := by
  unfold users
  by_cases hg : g' = g
  · rw [if_pos hg]
    exact countWith_update_leave _ h i _ (by simp [hi, hg]) (by simp)
  · rw [if_neg hg, add_zero]
    exact countWith_update_same (· = some g') h i none (by simp [hi, Ne.symm hg])

section call

variable {s : State n} {h : Fin n → Option ℕ} {i : Fin n} {b : ShmBlock}

lemma Inv.nonneg (hinv : Inv s h) (g : ℕ) : 0 ≤ (s.memory.segment g).refcount := by
  rw [hinv.counted g]
  exact Int.natCast_nonneg _

lemma Inv.opened_none (hinv : Inv s h) (hb : s.block i = some b) (hbuf : b.buffer = none) :
    h i = none := by
  rw [hinv.opened i, hb, Option.bind_some, hbuf]

/-- One object changes, or is constructed or destroyed. -/
lemma Inv.attached_update (hinv : Inv s h) {o : Option ShmBlock}
    (ho : ∀ c, o = some c → c.Attached) {j : Fin n} {c : ShmBlock}
    (hj : Function.update s.block i o j = some c) : c.Attached := by
  by_cases hji : j = i
  · rw [hji, Function.update_self] at hj
    exact ho c hj
  · rw [Function.update_of_ne hji] at hj
    exact hinv.attached j c hj

/-- The object gets another block that is not a user, and the counts stay. -/
lemma inv_replace (hinv : Inv s h) (hb : s.block i = some b) (hbuf : b.buffer = none)
    {m : Memory} {b' : ShmBlock}
    (hcount : ∀ g, (m.segment g).refcount = (s.memory.segment g).refcount)
    (hcreated : s.memory.created ≤ m.created)
    (hnamed : ∀ g, m.name = some g → g < m.created) (hb' : b'.Attached) (hbuf' : b'.buffer = none) :
    Inv { s with memory := m, block := Function.update s.block i (some b') } h := by
  refine ⟨fun g => ?_, fun g => ?_, fun j => ?_, fun j c hj => ?_, fun g hg => ?_, hnamed⟩
  · rw [hcount, hinv.counted]
  · rw [hcount]
    exact hinv.bounded g
  · by_cases hj : j = i
    · rw [hj, hinv.opened_none hb hbuf]
      simp [hbuf']
    · simp [hj, hinv.opened]
  · exact hinv.attached_update (by simpa using hb') hj
  · rw [hcount]
    exact hinv.fresh g (hcreated.trans hg)

lemma attached_attach (b : ShmBlock) (g : ℕ) (hbuf : b.buffer = none) : (b.attach g).Attached :=
  ⟨by simp [ShmBlock.attach], by simp [ShmBlock.attach, hbuf]⟩

/-- The object becomes a user of segment `g`, whose count goes up by one. -/
lemma inv_open (hinv : Inv s h) (hb : s.block i = some b) (hbuf : b.buffer = none) {m : Memory}
    {g : ℕ} (hcount : ∀ g', (m.segment g').refcount =
      (s.memory.segment g').refcount + if g' = g then 1 else 0)
    (hmax : (s.memory.segment g).refcount ≠ 2 ^ 31 - 1) (hcreated : s.memory.created ≤ m.created)
    (hg : g < m.created) (hname : m.name = some g) :
    Inv { s with
      memory := m
      block := Function.update s.block i (some { b.attach g with buffer := some g }) }
      (Function.update h i (some g)) := by
  refine ⟨fun g' => ?_, fun g' => ?_, fun j => ?_, fun j c hj => ?_,
    fun g' (hg' : m.created ≤ g') => ?_, fun g' hg' => ?_⟩
  · rw [hcount, hinv.counted, users_open (hinv.opened_none hb hbuf)]
    push_cast
    split <;> rfl
  · rw [hcount]
    have := hinv.bounded g'
    split
    next heq =>
      subst heq
      omega
    next => omega
  · by_cases hj : j = i
    · simp [hj]
    · simp [hj, hinv.opened]
  · refine hinv.attached_update ?_ hj
    rintro c ⟨⟩
    exact ⟨by simp [ShmBlock.attach], by simp [ShmBlock.attach]⟩
  · rw [hcount, if_neg (by omega), hinv.fresh g' (by omega), add_zero]
  · rw [hname] at hg'
    obtain rfl := Option.some.inj hg'
    exact hg

lemma increaseRefCount_refcount {m : Memory} {g : ℕ} (hl : 0 ≤ (m.segment g).refcount)
    (hu : (m.segment g).refcount < 2 ^ 31 - 1) (g' : ℕ) :
    ((m.increaseRefCount g).segment g').refcount =
      (m.segment g').refcount + if g' = g then 1 else 0 := by
  by_cases hg : g' = g
  · subst hg
    simp only [Memory.increaseRefCount, Function.update_self, if_true]
    rw [wrap32_of_range] <;> omega
  · simp [Memory.increaseRefCount, hg]

lemma create_refcount {m : Memory} (hfresh : (m.segment m.created).refcount = 0) (size g : ℕ) :
    ((m.create size).segment g).refcount = (m.segment g).refcount := by
  by_cases hg : g = m.created
  · simp [Memory.create, hg, hfresh]
  · simp [Memory.create, hg]

lemma construct_refcount {m : Memory} (hfresh : (m.segment m.created).refcount = 0) (size g : ℕ) :
    ((((m.create size).construct m.created b).increaseRefCount m.created).segment g).refcount =
      (m.segment g).refcount + if g = m.created then 1 else 0 := by
  by_cases hg : g = m.created
  · subst hg
    simp [Memory.increaseRefCount, Memory.construct, hfresh]
    decide
  · simp [Memory.increaseRefCount, Memory.construct, Memory.create, hg]

/-- An open call that is not wrong keeps the invariant and does not unlink. -/
lemma inv_applyCall {create : Bool} {f : Faults} {c : Call} (hinv : Inv s h)
    (hb : s.block i = some b) (hr : Result create s.memory b f c)
    (hok : ¬CallBreaks create s.memory b f) :
    Inv (applyCall s i c).1 (observe record h (applyCall s i c).2) ∧
      ∀ j, .unlinked j ∉ (applyCall s i c).2 := by
  have hatt := hinv.attached i b hb
  simp only [CallBreaks, not_or] at hok
  obtain ⟨hcounted, hunlinks, hoverflows⟩ := hok
  cases hr with
  | again hm =>
    have hself : Function.update s.block i (some b) = s.block := by
      rw [← hb, Function.update_eq_self]
    cases hmap : b.managedShm with
    | null => exact absurd hmap hm
    | failed => simpa [applyCall, callEvents, hmap, hself] using hinv
    | segment g =>
      -- the object is counted already, so its second success changes nothing
      have hbuf := hatt.buffer_of_counted hcounted hmap
      have hopened : Function.update h i (some g) = h := by
        rw [← hbuf, ← Option.bind_some b ShmBlock.buffer, ← hb, ← hinv.opened i,
          Function.update_eq_self]
      simpa [applyCall, callEvents, hmap, hself, record, hopened] using hinv
  | refused b' hm hb' hu ho =>
    have hbuf := hatt.buffer_of_null hm
    have hstate := hatt.state_of_null hm
    have hb'buf : b'.buffer = none := by
      rcases hb' with rfl | rfl | ⟨g, rfl⟩ <;> exact hbuf
    have hb'att : b'.Attached := by
      rcases hb' with rfl | rfl | ⟨g, rfl⟩
      · exact hatt
      · exact ⟨by simp [hstate], by simp [hbuf]⟩
      · exact attached_attach b g hbuf
    refine ⟨?_, by simp [applyCall, callEvents]⟩
    simpa [applyCall, callEvents] using
      inv_replace hinv hb hbuf (fun _ => rfl) le_rfl hinv.named hb'att hb'buf
  | counted g hm hname hu ho =>
    have hbuf := hatt.buffer_of_null hm
    have hmax := mt ho.mpr hoverflows
    have hlt := hinv.bounded g
    refine ⟨?_, by simp [applyCall, callEvents, ShmBlock.attach]⟩
    have hopen := inv_open hinv hb hbuf
      (increaseRefCount_refcount (hinv.nonneg g) (by omega)) hmax le_rfl (hinv.named g hname) hname
    simpa [applyCall, callEvents, ShmBlock.attach, record] using hopen
  | truncated hm hu ho =>
    have hbuf := hatt.buffer_of_null hm
    refine ⟨?_, by simp [applyCall, callEvents]⟩
    simpa [applyCall, callEvents] using
      inv_replace hinv hb hbuf (create_refcount (hinv.fresh _ le_rfl) 0) (Nat.le_succ _)
        (by simp [Memory.create]) hatt hbuf
  | unmapped hm hu => exact absurd hu hunlinks
  | created hm hu ho =>
    have hbuf := hatt.buffer_of_null hm
    have hfresh := hinv.fresh _ (le_refl s.memory.created)
    refine ⟨?_, by simp [applyCall, callEvents, ShmBlock.attach]⟩
    have hopen := inv_open hinv hb hbuf (construct_refcount (b := b) hfresh b.cap.toNat)
      (by rw [hfresh]; norm_num) (Nat.le_succ _) (Nat.lt_succ_self _) rfl
    simpa [applyCall, callEvents, ShmBlock.attach, record] using hopen

lemma decreaseRefCount_refcount {m : Memory} {g : ℕ} (hl : 0 ≤ (m.segment g).refcount)
    (hu : (m.segment g).refcount < 2 ^ 31) (g' : ℕ) :
    ((m.decreaseRefCount g).segment g').refcount + (if g' = g then 1 else 0) =
      (m.segment g').refcount := by
  by_cases hg : g' = g
  · subst hg
    simp only [Memory.decreaseRefCount, Function.update_self, if_true]
    rw [wrap32_of_range] <;> omega
  · simp [Memory.decreaseRefCount, hg]

/-- The destructor of a user takes it out of the count. -/
lemma inv_close (hinv : Inv s h) {g : ℕ} (hi : h i = some g) {m : Memory}
    (hsegment : m.segment = (s.memory.decreaseRefCount g).segment)
    (hcreated : m.created = s.memory.created)
    (hname : ∀ g', m.name = some g' → s.memory.name = some g') :
    Inv { s with memory := m, block := Function.update s.block i none }
      (Function.update h i none) := by
  have hdec := decreaseRefCount_refcount (hinv.nonneg g) (hinv.bounded g)
  refine ⟨fun g' => ?_, fun g' => ?_, fun j => ?_, fun j c hj => ?_,
    fun g' (hg' : m.created ≤ g') => ?_, fun g' hg' => ?_⟩
  · have hold := hinv.counted g'
    rw [← hdec g', ← users_close hi g'] at hold
    simp only [hsegment]
    push_cast at hold
    exact add_right_cancel hold
  · have hold := hinv.bounded g'
    rw [← hdec g'] at hold
    simp only [hsegment]
    split at hold <;> omega
  · by_cases hj : j = i
    · simp [hj]
    · simp [hj, hinv.opened]
  · exact hinv.attached_update (by simp) hj
  · have hne : g' ≠ g := by
      rintro rfl
      have hpos : 0 < users h g' := (countWith_pos_iff _ _).mpr ⟨i, hi⟩
      have hzero := hinv.fresh g' (hcreated ▸ hg')
      rw [hinv.counted] at hzero
      omega
    have hold := hdec g'
    rw [if_neg hne, add_zero] at hold
    simp only [hsegment]
    rw [hold]
    exact hinv.fresh g' (hcreated ▸ hg')
  · simp only [hcreated]
    exact hinv.named g' (hname g' hg')

end call

section step

variable {s s' : State n} {es fs : List (Event n)} {a : Action n}

/-- The second half of `Keeps` for a step that is not a destructor. -/
lemma unlinks_iff_of_call (ha : ∀ i, a ≠ .destroy i) :
    ((∃ i, .unlinked i ∈ fs) ↔
      ∃ i g, a = .destroy i ∧ history es i = some g ∧ users (history (es ++ fs)) g = 0) ↔
      ∀ i, .unlinked i ∉ fs := by
  have hnot : ¬∃ i g, a = .destroy i ∧ history es i = some g ∧ users (history (es ++ fs)) g = 0 :=
    fun ⟨i, _, hi, _⟩ => ha i hi
  rw [iff_false_right hnot, not_exists]

lemma inv_construct (hinv : Inv s (history es)) {i : Fin n} (hi : s.block i = none)
    (blockNum blockSize : ℤ) :
    Inv
      { s with
        block := Function.update s.block i (some ⟨blockNum, blockSize, .null, none, none⟩) }
      (history es) := by
  refine ⟨hinv.counted, hinv.bounded, fun j => ?_, fun j c hj => ?_, hinv.fresh, hinv.named⟩
  · by_cases hj : j = i
    · rw [hj, hinv.opened, hi]
      simp
    · simp [hj, hinv.opened]
  · refine hinv.attached_update ?_ hj
    rintro c ⟨⟩
    exact ⟨by simp, by simp⟩

lemma inv_crash (hinv : Inv s (history es)) (i : Fin n) :
    Inv (crash s i).1 (observe record (history es) (crash s i).2) :=
  ⟨hinv.counted, hinv.bounded, hinv.opened, hinv.attached, hinv.fresh, hinv.named⟩

/-- `AcquireBlockToWrite` and `AcquireBlockToRead`, when their open call is not wrong. -/
lemma inv_acquire {i : Fin n} {b : ShmBlock} {create : Bool} {f : Faults} {c : Call}
    (hinv : Inv s (history es)) (hb : s.block i = some b) (hr : Result create s.memory b f c)
    (hu : ¬Unlinks create s.memory b f) (ho : ¬Overflows create s.memory b f) :
    Inv (acquire s i b c).1 (observe record (history es) (acquire s i b c).2) ∧
      ∀ j, .unlinked j ∉ (acquire s i b c).2 := by
  unfold acquire
  by_cases hm : b.managedShm = .null
  · rw [if_pos hm]
    apply inv_applyCall hinv hb hr
    rintro (hbad | hbad | hbad)
    · exact hbad.1 ((hinv.attached i b hb).state_of_null hm)
    · exact hu hbad
    · exact ho hbad
  · rw [if_neg hm]
    split
    · exact ⟨inv_crash hinv i, by simp [crash]⟩
    · exact ⟨hinv, by simp⟩

/-- The destructor of an object that is counted or not attached. -/
lemma inv_destroy {i : Fin n} {b : ShmBlock} (hinv : Inv s (history es)) (hb : s.block i = some b)
    (hok : ¬Uncounted b) :
    Inv (destroy s i b).1 (history (es ++ (destroy s i b).2)) ∧
      ((∃ j, .unlinked j ∈ (destroy s i b).2) ↔
        ∃ g, history es i = some g ∧ users (history (es ++ (destroy s i b).2)) g = 0) := by
  have hatt := hinv.attached i b hb
  rw [history_append]
  unfold destroy
  cases hstate : b.state with
  | none =>
    refine ⟨inv_crash hinv i, ?_⟩
    have hbuf : b.buffer = none := by
      cases hbuf : b.buffer with
      | none => rfl
      | some g =>
        rw [(hatt.state_iff g).mpr (hatt.buffer_imp g hbuf)] at hstate
        cases hstate
    simp [crash, hinv.opened_none hb hbuf]
  | some g =>
    have hopened : history es i = some g := by
      rw [hinv.opened i, hb, Option.bind_some]
      exact hatt.buffer_of_counted hok ((hatt.state_iff g).mp hstate)
    have husers := users_close hopened g
    rw [if_pos rfl] at husers
    have hcount := hinv.counted g
    simp only
    by_cases hlast : (s.memory.segment g).refcount = 1
    · rw [if_pos hlast]
      refine ⟨inv_close hinv hopened rfl rfl (by simp [Memory.shmUnlink]), ?_⟩
      simp only [observe_cons, observe_nil, record, hopened, Option.some.injEq, exists_eq_left']
      exact iff_of_true ⟨i, by simp⟩ (by omega)
    · rw [if_neg hlast]
      refine ⟨inv_close hinv hopened rfl rfl (fun _ => id), ?_⟩
      simp only [observe_cons, observe_nil, record, hopened, Option.some.injEq, exists_eq_left']
      exact iff_of_false (by simp) (by omega)

/-- A step that does not break the count keeps the invariant and unlinks as it should. -/
lemma inv_step (hinv : Inv s (history es)) (hok : s.crashed = false → ¬Breaks s a)
    (hs : step s a = some (s', fs)) :
    Inv s' (history (es ++ fs)) ∧
      ((∃ i, .unlinked i ∈ fs) ↔
        ∃ i g, a = .destroy i ∧ history es i = some g ∧ users (history (es ++ fs)) g = 0) := by
  obtain ⟨hc, hs⟩ := Option.ite_none_left_eq_some.mp hs
  replace hok := hok (by simpa using hc)
  cases a with
  | construct i blockNum blockSize =>
    rw [unlinks_iff_of_call (by simp)]
    cases hi : s.block i with
    | some b => simp [perform, hi] at hs
    | none =>
      simp only [perform, hi] at hs
      obtain ⟨rfl, rfl⟩ := Prod.mk.inj (Option.some.inj hs)
      exact ⟨by simpa using inv_construct hinv hi blockNum blockSize, by simp⟩
  | openOrCreate i f =>
    rw [unlinks_iff_of_call (by simp), history_append]
    obtain ⟨b, hb, hs⟩ := Option.map_eq_some_iff.mp hs
    obtain ⟨rfl, rfl⟩ := Prod.mk.inj hs
    exact inv_applyCall hinv hb (openOrCreate_result s.memory b f) fun hbad => hok ⟨b, hb, hbad⟩
  | openOnly i f =>
    rw [unlinks_iff_of_call (by simp), history_append]
    obtain ⟨b, hb, hs⟩ := Option.map_eq_some_iff.mp hs
    obtain ⟨rfl, rfl⟩ := Prod.mk.inj hs
    exact inv_applyCall hinv hb (openOnly_result s.memory b f (by simp)) fun hbad =>
      hok ⟨b, hb, hbad⟩
  | acquireBlockToWrite i f =>
    rw [unlinks_iff_of_call (by simp), history_append]
    obtain ⟨b, hb, hs⟩ := Option.map_eq_some_iff.mp hs
    obtain ⟨rfl, rfl⟩ := Prod.mk.inj hs
    exact inv_acquire hinv hb (openOrCreate_result s.memory b f)
      (fun hbad => hok ⟨b, hb, Or.inl hbad⟩) (fun hbad => hok ⟨b, hb, Or.inr hbad⟩)
  | acquireBlockToRead i f =>
    rw [unlinks_iff_of_call (by simp), history_append]
    obtain ⟨b, hb, hs⟩ := Option.map_eq_some_iff.mp hs
    obtain ⟨rfl, rfl⟩ := Prod.mk.inj hs
    exact inv_acquire hinv hb (openOnly_result s.memory b f (by simp)) (by simp [Unlinks])
      (fun hbad => hok ⟨b, hb, hbad⟩)
  | destroy i =>
    obtain ⟨b, hb, hs⟩ := Option.map_eq_some_iff.mp hs
    have hdestroy := inv_destroy hinv hb fun hbad => hok ⟨b, hb, hbad⟩
    rw [hs] at hdestroy
    simpa using hdestroy

end step

end CodeC.ShmBlock4
