import CodeC.ShmPubSub

/-!
# Which segment a subscriber of `pubsub-shm-udp-3` reads

A subscriber keeps the segment that it has once mapped, and the destructor of every mapped
`ShmBlock` removes the name. A notice of the live publisher makes a subscriber read the segment
of that publisher exactly when the subscriber had no mapping at the construction of the publisher
and no mapped subscriber was destroyed from there to its own first mapping.
-/

namespace CodeC.ShmPubSub
open Library

variable {n : ℕ} {topic : String}

/-- The segment that a live subscriber has mapped. -/
def Subscriber.mapped : Subscriber → Option ℕ
  | .alive shm => shm.managedShm
  | _ => none

@[simp] lemma mapped_alive (shm : ShmBlock) : (Subscriber.alive shm).mapped = shm.managedShm := rfl

@[simp] lemma mapped_unborn : Subscriber.unborn.mapped = none := rfl

/-- The step cuts subscriber `k` off from the segment of the publisher: a publisher is constructed
while `k` has a mapping, or a mapped subscriber is destroyed while `k` has none. -/
def CutsOff (k : Fin n) (s : State n) : Action n → Prop
  | .newPublisher => (s.subscriber k).mapped ≠ none
  | .destroySubscriber j => (s.subscriber j).mapped ≠ none ∧ (s.subscriber k).mapped = none
  | _ => False

/-- Only lock words differ. -/
structure LocksOnly (m m' : Memory) : Prop where
  names_eq : m'.names = m.names
  created_eq : m'.created = m.created
  blockNum_eq : ∀ g, (m'.segment g).blockNum = (m.segment g).blockNum
  readPos_eq : ∀ g, (m'.segment g).readPos = (m.segment g).readPos

lemma LocksOnly.rfl {m : Memory} : LocksOnly m m :=
  ⟨Eq.refl _, Eq.refl _, fun _ => Eq.refl _, fun _ => Eq.refl _⟩

lemma LocksOnly.trans {m m' m'' : Memory} (h : LocksOnly m m') (h' : LocksOnly m' m'') :
    LocksOnly m m'' :=
  ⟨h'.names_eq.trans h.names_eq, h'.created_eq.trans h.created_eq,
    fun g => (h'.blockNum_eq g).trans (h.blockNum_eq g),
    fun g => (h'.readPos_eq g).trans (h.readPos_eq g)⟩

lemma locksOnly_setSegment (m : Memory) (g : ℕ) (locks : ℕ → ℤ) :
    LocksOnly m (m.setSegment g { m.segment g with locks := locks }) := by
  refine ⟨Eq.refl _, Eq.refl _, ?_, ?_⟩ <;>
  · intro g'
    by_cases hg : g' = g
    · simp [Memory.setSegment, hg]
    · simp [Memory.setSegment, hg]

lemma openOnly_managedShm (m : Memory) (shm : ShmBlock) :
    (shm.openOnly m).managedShm = shm.managedShm.or (m.names shm.shmName) := by
  cases h : shm.managedShm <;> simp [ShmBlock.openOnly, h]

lemma openOnly_shmName (m : Memory) (shm : ShmBlock) :
    (shm.openOnly m).shmName = shm.shmName := by
  cases h : shm.managedShm <;> simp [ShmBlock.openOnly, h]

/-- `message_read_cb` for `kNotifyRead`: the three ways it ends. -/
inductive ReadCb (m : Memory) (k : Fin n) (shm : ShmBlock) :
    Memory → Subscriber → List (Event n) → Prop
  | null (h : (shm.openOnly m).managedShm = none) :
    ReadCb m k shm m (.alive (shm.openOnly m)) [.acquired k .null]
  | block (g : ℕ) (m' : Memory) (h : (shm.openOnly m).managedShm = some g)
      (hpos : 0 ≤ (m.segment g).readPos) (hm : LocksOnly m m') :
    ReadCb m k shm m' (.alive (shm.openOnly m))
      [.acquired k (.block g (m.segment g).readPos.toNat)]
  | assertFailed (g : ℕ) (h : (shm.openOnly m).managedShm = some g)
      (hpos : (m.segment g).readPos < 0) :
    ReadCb m k shm m .gone [.acquired k .assertFailed]

lemma readCb_messageReadCb (m : Memory) (k : Fin n) (shm : ShmBlock) :
    ReadCb m k shm (messageReadCb m k shm .kNotifyRead).1 (messageReadCb m k shm .kNotifyRead).2.1
      (messageReadCb m k shm .kNotifyRead).2.2 := by
  cases h : (shm.openOnly m).managedShm with
  | none =>
    simp only [messageReadCb, ShmBlock.acquireBlockToRead, h]
    exact .null h
  | some g =>
    by_cases hpos : (m.segment g).readPos < 0
    · simp only [messageReadCb, ShmBlock.acquireBlockToRead, h, lockForRead, hpos, if_true]
      exact .assertFailed g h hpos
    · simp only [messageReadCb, ShmBlock.acquireBlockToRead, h, lockForRead, hpos, if_false]
      refine .block g _ h (not_lt.mp hpos) ?_
      exact (locksOnly_setSegment m g _).trans (locksOnly_setSegment _ g _)

lemma lockForWrite_spec {st st' : ShmState.State} {i : ℕ} (h : lockForWrite st = some (st', i)) :
    i < st.blockNum ∧ ∃ locks, st' = { st with locks := locks } := by
  obtain ⟨j, hj, heq⟩ := Option.map_eq_some_iff.mp h
  obtain ⟨rfl, rfl⟩ := Prod.mk.inj heq
  obtain ⟨x, hx, rfl⟩ := List.mem_map.mp (List.mem_of_find?_eq_some hj)
  refine ⟨Nat.mod_lt _ ?_, _, rfl⟩
  exact (Nat.zero_le x).trans_lt (List.mem_range.mp hx)

/-- What holds of the live publisher and its segment `g`. -/
structure PublisherInv (topic : String) (s : State n) (pub : Publisher) (g : ℕ) : Prop where
  managedShm_eq : pub.shm.managedShm = some g
  shmName_eq : pub.shm.shmName = topic
  serial_lt : pub.serial < s.publishers
  segment_lt : g < s.memory.created
  names_or : s.memory.names topic = none ∨ s.memory.names topic = some g
  blockNum_eq : (s.memory.segment g).blockNum = kBlockNum
  readPos_lt : (s.memory.segment g).readPos < kBlockNum
  acquired_lt : ∀ i ∈ pub.acquired, i < kBlockNum
  published : ∀ d ∈ s.inFlight, d.sender = pub.serial → 0 ≤ (s.memory.segment g).readPos

/-- What holds in every reachable state. -/
structure Inv (topic : String) (s : State n) : Prop where
  publisher : ∀ pub, s.publisher = some pub → ∃ g, PublisherInv topic s pub g
  names_of_none : s.publisher = none → s.memory.names topic = none
  shmName_eq : ∀ k shm, s.subscriber k = .alive shm → shm.shmName = topic
  mapped_lt : ∀ k shm g, s.subscriber k = .alive shm → shm.managedShm = some g →
    g < s.memory.created
  notice_lt : ∀ d ∈ s.inFlight, d.sender < s.publishers
  notice_read : ∀ d ∈ s.inFlight, d.kind = .kNotifyRead

lemma inv_start : Inv topic (start : State n) := by
  refine ⟨?_, fun _ => rfl, ?_, ?_, ?_, ?_⟩ <;> simp [start]

/-- Every step from a state that satisfies the invariant, with its guard and its effect. -/
inductive Move (topic : String) (s : State n) : Action n → State n → List (Event n) → Prop
  | newPublisher (hp : s.publisher = none) : Move topic s .newPublisher (newPublisher topic s) []
  | acquire (pub : Publisher) (g i : ℕ) (m : Memory) (hp : s.publisher = some pub)
      (hg : pub.shm.managedShm = some g) (hi : i < (s.memory.segment g).blockNum)
      (hm : LocksOnly s.memory m) :
    Move topic s .acquire
      { s with memory := m, publisher := some { pub with acquired := i :: pub.acquired } } []
  | publish (pub : Publisher) (i : ℕ) (subs : List (Fin n)) (hp : s.publisher = some pub)
      (hi : i ∈ pub.acquired) : Move topic s (.publish i subs) (publish s pub i subs) []
  | destroyPublisher (pub : Publisher) (hp : s.publisher = some pub) :
    Move topic s .destroyPublisher
      { s with memory := pub.shm.destroy s.memory, publisher := none } []
  | newSubscriber (k : Fin n) (hk : s.subscriber k = .unborn) :
    Move topic s (.newSubscriber k)
      { s with
        subscriber := Function.update s.subscriber k
          (.alive (ShmBlock.openOnly s.memory ⟨topic, kBlockNum, none⟩)) } []
  | deliver (d : Notice n) (shm : ShmBlock) (m : Memory) (sub : Subscriber) (es : List (Event n))
      (hk : s.subscriber d.target = .alive shm) (hd : d ∈ s.inFlight)
      (hcb : ReadCb s.memory d.target shm m sub es) :
    Move topic s (.deliver d)
      { s with
        memory := m
        subscriber := Function.update s.subscriber d.target sub
        inFlight := s.inFlight.erase d } es
  | destroySubscriber (k : Fin n) (shm : ShmBlock) (hk : s.subscriber k = .alive shm) :
    Move topic s (.destroySubscriber k)
      { s with
        memory := shm.destroy s.memory
        subscriber := Function.update s.subscriber k .gone } []

/-- `Acquire` on a mapped block. -/
lemma acquire_spec {s s' : State n} {pub : Publisher} {g : ℕ} (hg : pub.shm.managedShm = some g)
    (h : acquire s pub = some s') :
    ∃ i m, i < (s.memory.segment g).blockNum ∧ LocksOnly s.memory m ∧
      s' = { s with memory := m, publisher := some { pub with acquired := i :: pub.acquired } } := by
  obtain ⟨⟨m, shm, i⟩, hw, rfl⟩ := Option.map_eq_some_iff.mp h
  simp only [ShmBlock.acquireBlockToWrite, ShmBlock.create, hg] at hw
  obtain ⟨⟨st, j⟩, hl, heq⟩ := Option.map_eq_some_iff.mp hw
  simp only [Prod.mk.injEq] at heq
  obtain ⟨rfl, rfl, rfl⟩ := heq
  obtain ⟨hi, locks, rfl⟩ := lockForWrite_spec hl
  exact ⟨j, _, hi, locksOnly_setSegment _ g locks, rfl⟩

theorem step_move {s s' : State n} {a : Action n} {es : List (Event n)} (hinv : Inv topic s)
    (h : step topic s a = some (s', es)) : Move topic s a s' es := by
  cases a with
  | newPublisher =>
    cases hp : s.publisher with
    | some pub => simp [step, hp] at h
    | none =>
      simp only [step, hp] at h
      obtain ⟨rfl, rfl⟩ := Prod.mk.inj (Option.some.inj h)
      exact .newPublisher hp
  | acquire =>
    cases hp : s.publisher with
    | none => simp [step, hp] at h
    | some pub =>
      simp only [step, hp] at h
      obtain ⟨t, ht, heq⟩ := Option.map_eq_some_iff.mp h
      obtain ⟨rfl, rfl⟩ := Prod.mk.inj heq
      obtain ⟨g, hg⟩ := hinv.publisher pub hp
      obtain ⟨i, m, hi, hm, rfl⟩ := acquire_spec hg.managedShm_eq ht
      exact .acquire pub g i m hp hg.managedShm_eq hi hm
  | publish i subs =>
    cases hp : s.publisher with
    | none => simp [step, hp] at h
    | some pub =>
      simp only [step, hp] at h
      by_cases hi : i ∈ pub.acquired
      · rw [if_pos hi] at h
        obtain ⟨rfl, rfl⟩ := Prod.mk.inj (Option.some.inj h)
        exact .publish pub i subs hp hi
      · simp [hi] at h
  | destroyPublisher =>
    cases hp : s.publisher with
    | none => simp [step, hp] at h
    | some pub =>
      simp only [step, hp] at h
      obtain ⟨rfl, rfl⟩ := Prod.mk.inj (Option.some.inj h)
      exact .destroyPublisher pub hp
  | newSubscriber k =>
    cases hk : s.subscriber k with
    | unborn =>
      simp only [step, hk] at h
      obtain ⟨rfl, rfl⟩ := Prod.mk.inj (Option.some.inj h)
      exact .newSubscriber k hk
    | alive shm => simp [step, hk] at h
    | gone => simp [step, hk] at h
  | deliver d =>
    cases hk : s.subscriber d.target with
    | unborn => simp [step, hk] at h
    | gone => simp [step, hk] at h
    | alive shm =>
      simp only [step, hk] at h
      by_cases hd : d ∈ s.inFlight
      · rw [if_pos hd] at h
        simp only [deliver, hinv.notice_read d hd] at h
        obtain ⟨rfl, rfl⟩ := Prod.mk.inj (Option.some.inj h)
        exact .deliver d shm _ _ _ hk hd (readCb_messageReadCb s.memory d.target shm)
      · simp [hd] at h
  | destroySubscriber k =>
    cases hk : s.subscriber k with
    | unborn => simp [step, hk] at h
    | gone => simp [step, hk] at h
    | alive shm =>
      simp only [step, hk] at h
      obtain ⟨rfl, rfl⟩ := Prod.mk.inj (Option.some.inj h)
      exact .destroySubscriber k shm hk

section invariant

variable {s s' : State n} {pub : Publisher} {g : ℕ}

/-- The publisher does not move, nothing is sent, and the name is kept or removed. -/
lemma PublisherInv.keep (h : PublisherInv topic s pub g) (hpubs : s'.publishers = s.publishers)
    (hnames : s'.memory.names topic = s.memory.names topic ∨ s'.memory.names topic = none)
    (hcreated : s'.memory.created = s.memory.created)
    (hblock : (s'.memory.segment g).blockNum = (s.memory.segment g).blockNum)
    (hread : (s'.memory.segment g).readPos = (s.memory.segment g).readPos)
    (hfly : ∀ d ∈ s'.inFlight, d ∈ s.inFlight) : PublisherInv topic s' pub g := by
  refine ⟨h.managedShm_eq, h.shmName_eq, ?_, ?_, ?_, ?_, ?_, h.acquired_lt, ?_⟩
  · rw [hpubs]
    exact h.serial_lt
  · rw [hcreated]
    exact h.segment_lt
  · obtain hn | hn := hnames
    · rw [hn]
      exact h.names_or
    · exact Or.inl hn
  · rw [hblock, h.blockNum_eq]
  · rw [hread]
    exact h.readPos_lt
  · intro d hd hsender
    rw [hread]
    exact h.published d (hfly d hd) hsender

/-- The name is free when a publisher is constructed, so it gets a new segment. -/
lemma newPublisher_eq (hnames : s.memory.names topic = none) :
    newPublisher topic s =
      { s with
        memory := ⟨Function.update s.memory.names topic (some s.memory.created),
          Function.update s.memory.segment s.memory.created (ShmState.State.new kBlockNum),
          s.memory.created + 1⟩
        publisher := some ⟨s.publishers, ⟨topic, kBlockNum, some s.memory.created⟩, []⟩
        publishers := s.publishers + 1 } := by
  simp only [newPublisher, ShmBlock.create, Memory.shmOpenCreate, hnames, Memory.setSegment]

lemma inv_newPublisher (h : Inv topic s) (hp : s.publisher = none) :
    Inv topic (newPublisher topic s) := by
  rw [newPublisher_eq (h.names_of_none hp)]
  refine ⟨?_, by simp, h.shmName_eq, ?_, ?_, h.notice_read⟩
  · rintro pub ⟨⟩
    refine ⟨s.memory.created, rfl, rfl, Nat.lt_succ_self _, Nat.lt_succ_self _, ?_, ?_, ?_, ?_, ?_⟩
    · simp
    · simp [ShmState.State.new]
    · simp [ShmState.State.new, kBlockNum]
    · simp
    · intro d hd hsender
      exact absurd hsender (h.notice_lt d hd).ne
  · intro k shm g hk hg
    exact (h.mapped_lt k shm g hk hg).trans (Nat.lt_succ_self _)
  · intro d hd
    exact (h.notice_lt d hd).trans (Nat.lt_succ_self _)

lemma inv_acquire (h : Inv topic s) {i : ℕ} {m : Memory} (hp : s.publisher = some pub)
    (hg : pub.shm.managedShm = some g) (hi : i < (s.memory.segment g).blockNum)
    (hm : LocksOnly s.memory m) :
    Inv topic { s with
      memory := m
      publisher := some { pub with acquired := i :: pub.acquired } } := by
  obtain ⟨g', hpub⟩ := h.publisher pub hp
  obtain rfl : g' = g := Option.some.inj (hpub.managedShm_eq.symm.trans hg)
  refine ⟨?_, by simp, h.shmName_eq, ?_, h.notice_lt, h.notice_read⟩
  · rintro pub' ⟨⟩
    have hkeep : PublisherInv topic { s with memory := m } pub g' :=
      hpub.keep rfl (Or.inl (by rw [hm.names_eq])) hm.created_eq (hm.blockNum_eq g')
        (hm.readPos_eq g') (fun _ hd => hd)
    refine ⟨g', { hkeep with acquired_lt := ?_ }⟩
    intro j hj
    obtain rfl | hj := List.mem_cons.mp hj
    · exact hpub.blockNum_eq ▸ hi
    · exact hpub.acquired_lt j hj
  · intro k shm g hk hmap
    rw [hm.created_eq]
    exact h.mapped_lt k shm g hk hmap

lemma inv_publish (h : Inv topic s) {i : ℕ} (subs : List (Fin n)) (hp : s.publisher = some pub)
    (hi : i ∈ pub.acquired) : Inv topic (publish s pub i subs) := by
  obtain ⟨g, hpub⟩ := h.publisher pub hp
  have hmem : pub.shm.releaseWrittenBlock s.memory i =
      s.memory.setSegment g (releaseWriteLock (s.memory.segment g) i) := by
    simp [ShmBlock.releaseWrittenBlock, hpub.managedShm_eq]
  have hlt := hpub.acquired_lt i hi
  simp only [publish, hmem]
  refine ⟨?_, by simp, h.shmName_eq, h.mapped_lt, ?_, ?_⟩
  · rintro pub' ⟨⟩
    refine ⟨g, hpub.managedShm_eq, hpub.shmName_eq, hpub.serial_lt, hpub.segment_lt,
      hpub.names_or, ?_, ?_, ?_, ?_⟩
    · simp [Memory.setSegment, releaseWriteLock, hpub.blockNum_eq]
    · simpa [Memory.setSegment, releaseWriteLock] using hlt
    · intro j hj
      exact hpub.acquired_lt j (List.mem_of_mem_erase hj)
    · simp [Memory.setSegment, releaseWriteLock]
  · intro d hd
    obtain hd | hd := List.mem_append.mp hd
    · exact h.notice_lt d hd
    · obtain ⟨k, -, rfl⟩ := List.mem_map.mp hd
      exact hpub.serial_lt
  · intro d hd
    obtain hd | hd := List.mem_append.mp hd
    · exact h.notice_read d hd
    · obtain ⟨k, -, rfl⟩ := List.mem_map.mp hd
      rfl

/-- One subscriber changes and the name may go. -/
lemma inv_subscriber (h : Inv topic s) (k : Fin n) (sub : Subscriber) (m : Memory)
    (fly : List (Notice n)) (hfly : ∀ d ∈ fly, d ∈ s.inFlight)
    (hnames : m.names topic = s.memory.names topic ∨ m.names topic = none)
    (hcreated : m.created = s.memory.created)
    (hblock : ∀ g, (m.segment g).blockNum = (s.memory.segment g).blockNum)
    (hread : ∀ g, (m.segment g).readPos = (s.memory.segment g).readPos)
    (hsub : ∀ shm, sub = .alive shm → shm.shmName = topic ∧
      ∀ g, shm.managedShm = some g → g < s.memory.created) :
    Inv topic { s with
      memory := m
      subscriber := Function.update s.subscriber k sub
      inFlight := fly } := by
  refine ⟨?_, ?_, ?_, ?_, ?_, ?_⟩
  · intro pub hp
    obtain ⟨g, hpub⟩ := h.publisher pub hp
    exact ⟨g, hpub.keep rfl hnames hcreated (hblock g) (hread g) hfly⟩
  · intro hp
    obtain hn | hn := hnames
    · exact hn.trans (h.names_of_none hp)
    · exact hn
  · intro j shm hj
    by_cases hjk : j = k
    · subst hjk
      exact (hsub shm (by simpa using hj)).1
    · exact h.shmName_eq j shm (by simpa [hjk] using hj)
  · intro j shm g hj hg
    change g < m.created
    rw [hcreated]
    by_cases hjk : j = k
    · subst hjk
      exact (hsub shm (by simpa using hj)).2 g hg
    · exact h.mapped_lt j shm g (by simpa [hjk] using hj) hg
  · intro d hd
    exact h.notice_lt d (hfly d hd)
  · intro d hd
    exact h.notice_read d (hfly d hd)

lemma destroy_names (m : Memory) {shm : ShmBlock} (hname : shm.shmName = topic) :
    (shm.destroy m).names topic = if shm.managedShm = none then m.names topic else none := by
  cases h : shm.managedShm with
  | none => simp [ShmBlock.destroy, h]
  | some g => simp [ShmBlock.destroy, h, Memory.shmUnlink, hname]

lemma destroy_eq (m : Memory) (shm : ShmBlock) :
    (shm.destroy m).created = m.created ∧ (shm.destroy m).segment = m.segment := by
  cases h : shm.managedShm <;> simp [ShmBlock.destroy, h, Memory.shmUnlink]

/-- A segment that `Open` maps has been created. -/
lemma Inv.openOnly_lt (h : Inv topic s) {shm : ShmBlock} (hname : shm.shmName = topic)
    (hlt : ∀ g, shm.managedShm = some g → g < s.memory.created) :
    ∀ g, (shm.openOnly s.memory).managedShm = some g → g < s.memory.created := by
  intro g hg
  rw [openOnly_managedShm, hname] at hg
  cases hm : shm.managedShm with
  | some g' => exact hlt g (by simpa [hm] using hg)
  | none =>
    rw [hm, Option.none_or] at hg
    cases hp : s.publisher with
    | none => simp [h.names_of_none hp] at hg
    | some pub =>
      obtain ⟨g', hpub⟩ := h.publisher pub hp
      obtain hn | hn := hpub.names_or
      · simp [hn] at hg
      · obtain rfl := Option.some.inj (hn.symm.trans hg)
        exact hpub.segment_lt

theorem inv_move {a : Action n} {es : List (Event n)} (h : Inv topic s)
    (hs : Move topic s a s' es) : Inv topic s' := by
  cases hs with
  | newPublisher hp => exact inv_newPublisher h hp
  | acquire pub g i m hp hg hi hm => exact inv_acquire h hp hg hi hm
  | publish pub i subs hp hi => exact inv_publish h subs hp hi
  | destroyPublisher pub hp =>
    obtain ⟨g, hpub⟩ := h.publisher pub hp
    refine ⟨by simp, fun _ => ?_, h.shmName_eq, ?_, h.notice_lt, h.notice_read⟩
    · rw [destroy_names _ hpub.shmName_eq]
      simp [hpub.managedShm_eq]
    · intro k shm g hk hg
      rw [(destroy_eq _ _).1]
      exact h.mapped_lt k shm g hk hg
  | newSubscriber k hk =>
    refine inv_subscriber h k _ s.memory s.inFlight (fun _ hd => hd) (Or.inl rfl) rfl
      (fun _ => rfl) (fun _ => rfl) ?_
    rintro shm ⟨⟩
    exact ⟨openOnly_shmName _ _, h.openOnly_lt rfl (by simp)⟩
  | deliver d shm m sub es hk hd hcb =>
    have hname := h.shmName_eq _ _ hk
    have hopen : (shm.openOnly s.memory).shmName = topic ∧
        ∀ g, (shm.openOnly s.memory).managedShm = some g → g < s.memory.created :=
      ⟨(openOnly_shmName _ _).trans hname,
        h.openOnly_lt hname fun g => h.mapped_lt _ _ g hk⟩
    have hfly : ∀ e ∈ s.inFlight.erase d, e ∈ s.inFlight := fun e he => List.mem_of_mem_erase he
    cases hcb with
    | null hnull =>
      refine inv_subscriber h d.target _ s.memory _ hfly (Or.inl rfl) rfl (fun _ => rfl)
        (fun _ => rfl) ?_
      rintro shm' ⟨⟩
      exact hopen
    | block g m hg hpos hm =>
      refine inv_subscriber h d.target _ m _ hfly (Or.inl (by rw [hm.names_eq])) hm.created_eq
        hm.blockNum_eq hm.readPos_eq ?_
      rintro shm' ⟨⟩
      exact hopen
    | assertFailed g hg hpos =>
      exact inv_subscriber h d.target _ s.memory _ hfly (Or.inl rfl) rfl (fun _ => rfl)
        (fun _ => rfl) (by simp)
  | destroySubscriber k shm hk =>
    obtain ⟨hcreated, hsegment⟩ := destroy_eq s.memory shm
    refine inv_subscriber h k .gone _ s.inFlight (fun _ hd => hd) ?_ hcreated
      (fun _ => by rw [hsegment]) (fun _ => by rw [hsegment]) (by simp)
    rw [destroy_names _ (h.shmName_eq k shm hk)]
    by_cases hnone : shm.managedShm = none
    · exact Or.inl (if_pos hnone)
    · exact Or.inr (if_neg hnone)

end invariant

section reads

variable {s s' : State n} {a : Action n} {es : List (Event n)} {g : ℕ} {k : Fin n}

/-- The segment that subscriber `k` would read is `g`. -/
def Reads (topic : String) (s : State n) (k : Fin n) (g : ℕ) : Prop :=
  (s.subscriber k).mapped.or (s.memory.names topic) = some g

/-- A publisher with segment `g` is alive. -/
def Publishes (s : State n) (g : ℕ) : Prop :=
  ∃ pub, s.publisher = some pub ∧ pub.shm.managedShm = some g

lemma publishes_move (hs : Move topic s a s' es) (ha : a ≠ .destroyPublisher)
    (h : Publishes s g) : Publishes s' g := by
  obtain ⟨pub, hp, hg⟩ := h
  cases hs with
  | newPublisher hp' => simp [hp] at hp'
  | acquire pub' g' i m hp' hg' hi hm =>
    obtain rfl := Option.some.inj (hp.symm.trans hp')
    exact ⟨_, rfl, hg⟩
  | publish pub' i subs hp' hi =>
    obtain rfl := Option.some.inj (hp.symm.trans hp')
    exact ⟨_, rfl, hg⟩
  | destroyPublisher pub' hp' => exact absurd rfl ha
  | newSubscriber j hj => exact ⟨pub, hp, hg⟩
  | deliver d shm m sub es hk hd hcb => exact ⟨pub, hp, hg⟩
  | destroySubscriber j shm hj => exact ⟨pub, hp, hg⟩

lemma gone_move (hs : Move topic s a s' es) (h : s.subscriber k = .gone) :
    s'.subscriber k = .gone := by
  have hkeep : ∀ j sub, s.subscriber j ≠ .gone →
      Function.update s.subscriber j sub k = .gone := by
    intro j sub hj
    have hne : k ≠ j := by
      rintro rfl
      exact hj h
    rw [Function.update_of_ne hne, h]
  cases hs with
  | newPublisher hp => exact h
  | acquire => exact h
  | publish => exact h
  | destroyPublisher => exact h
  | newSubscriber j hj => exact hkeep j _ (by simp [hj])
  | deliver d shm m sub es hj hd hcb => exact hkeep _ _ (by simp [hj])
  | destroySubscriber j shm hj => exact hkeep j _ (by simp [hj])

/-- Another subscriber changes. -/
lemma mapped_update_of_ne {j : Fin n} (hne : k ≠ j) (sub : Subscriber) :
    (Function.update s.subscriber j sub k).mapped = (s.subscriber k).mapped := by
  rw [Function.update_of_ne hne]

/-- While the publisher lives, a step changes what a live subscriber would read exactly when it
cuts the subscriber off. -/
lemma reads_move_iff (h : Inv topic s) (hpub : Publishes s g) (hs : Move topic s a s' es)
    (ha : a ≠ .destroyPublisher) (hk : s'.subscriber k ≠ .gone) :
    Reads topic s' k g ↔ Reads topic s k g ∧ ¬CutsOff k s a := by
  unfold Reads
  cases hs with
  | newPublisher hp =>
    obtain ⟨pub, hp', -⟩ := hpub
    simp [hp] at hp'
  | acquire pub g' i m hp hg hi hm => simp [CutsOff, hm.names_eq]
  | publish pub i subs hp hi =>
    have hnames : (pub.shm.releaseWrittenBlock s.memory i).names = s.memory.names := by
      cases hm : pub.shm.managedShm <;> simp [ShmBlock.releaseWrittenBlock, hm, Memory.setSegment]
    simp [CutsOff, publish, hnames]
  | destroyPublisher pub hp => exact absurd rfl ha
  | newSubscriber j hj =>
    rw [and_iff_left (by simp [CutsOff])]
    by_cases hkj : k = j
    · subst hkj
      simp [hj, openOnly_managedShm]
    · rw [mapped_update_of_ne hkj]
  | deliver d shm m sub es hj hd hcb =>
    rw [and_iff_left (by simp [CutsOff])]
    have hnames : m.names = s.memory.names := by
      cases hcb with
      | null => rfl
      | block g m hg hpos hm => exact hm.names_eq
      | assertFailed => rfl
    by_cases hkj : k = d.target
    · subst hkj
      have hsub : sub = .alive (shm.openOnly s.memory) := by
        cases hcb with
        | null => rfl
        | block => rfl
        | assertFailed => simp at hk
      cases hm : shm.managedShm <;>
        simp [hj, hsub, hnames, openOnly_managedShm, h.shmName_eq _ _ hj, hm]
    · rw [mapped_update_of_ne hkj, hnames]
  | destroySubscriber j shm hj =>
    have hkj : k ≠ j := by
      rintro rfl
      simp at hk
    rw [mapped_update_of_ne hkj, destroy_names _ (h.shmName_eq j shm hj)]
    cases hm : shm.managedShm with
    | none => simp [CutsOff, hj, hm]
    | some g' => cases hmap : (s.subscriber k).mapped <;> simp [CutsOff, hj, hm, hmap]

theorem inv_step (h : Inv topic s) (hs : step topic s a = some (s', es)) : Inv topic s' :=
  inv_move h (step_move h hs)

theorem inv_run {as : List (Action n)} (h : Inv topic s)
    (hrun : run (step topic) s as = some (s', es)) : Inv topic s' :=
  run_invariant_state (step topic) (Inv topic) (fun _ _ _ _ => inv_step) h hrun

lemma publishes_run {as : List (Action n)} (h : Inv topic s) (has : .destroyPublisher ∉ as)
    (hpub : Publishes s g) (hrun : run (step topic) s as = some (s', es)) : Publishes s' g :=
  run_invariant_under (step topic) (A := (· ≠ .destroyPublisher)) (P := (Publishes · g))
    (fun _ _ _ _ => inv_step) (fun _ _ _ _ hu ha hs => publishes_move (step_move hu hs) ha)
    (fun _ ha hne => has (hne ▸ ha)) h hpub hrun

lemma gone_run {as : List (Action n)} (h : Inv topic s) (hk : s.subscriber k = .gone)
    (hrun : run (step topic) s as = some (s', es)) : s'.subscriber k = .gone :=
  run_invariant_under (step topic) (A := fun _ => True) (P := fun u => u.subscriber k = .gone)
    (fun _ _ _ _ => inv_step) (fun _ _ _ _ hu _ hs => gone_move (step_move hu hs))
    (fun _ _ => trivial) h hk hrun

/-- Over a run in the life of the publisher. -/
theorem reads_run_iff {as : List (Action n)} (h : Inv topic s) (hpub : Publishes s g)
    (has : .destroyPublisher ∉ as) (hrun : run (step topic) s as = some (s', es))
    (hk : s'.subscriber k ≠ .gone) :
    Reads topic s' k g ↔
      Reads topic s k g ∧ StepsMeet (step topic) (fun u a => ¬CutsOff k u a) s as := by
  induction as generalizing s es with
  | nil =>
    simp only [run_nil, Option.some.injEq, Prod.mk.injEq] at hrun
    rw [hrun.1]
    exact (and_iff_left trivial).symm
  | cons a as ih =>
    obtain ⟨u, e, f, hs, hr, -⟩ := (run_cons_iff _ s s' a as es).mp hrun
    have hmove := step_move h hs
    have hu : Inv topic u := inv_move h hmove
    have ha : a ≠ .destroyPublisher := by
      rintro rfl
      simp at has
    have hku : u.subscriber k ≠ .gone := fun hgone => hk (gone_run hu hgone hr)
    rw [ih hu (publishes_move hmove ha hpub) (fun hmem => has (List.mem_cons_of_mem _ hmem)) hr,
      reads_move_iff h hpub hmove ha hku, and_assoc]
    refine and_congr_right fun _ => ⟨fun hmeet => stepsMeet_cons hs hmeet.1 hmeet.2, ?_⟩
    exact fun hmeet => ⟨hmeet.1, hmeet.2 u e hs⟩

/-- A new publisher is read by a subscriber exactly when that one has no older mapping. -/
lemma reads_newPublisher_iff (h : Inv topic s) (hp : s.publisher = none) :
    Reads topic (newPublisher topic s) k s.memory.created ↔ ¬CutsOff k s .newPublisher := by
  rw [newPublisher_eq (h.names_of_none hp)]
  simp only [Reads, CutsOff, Function.update_self]
  cases hk : s.subscriber k with
  | unborn => simp
  | gone => simp [Subscriber.mapped]
  | alive shm =>
    cases hm : shm.managedShm with
    | none => simp [hm]
    | some g' => simpa [hm] using (h.mapped_lt k shm g' hk hm).ne

/-- What a notice of the live publisher makes its target read. -/
lemma deliver_block_iff {d : Notice n} {shm : ShmBlock} {pub : Publisher} (h : Inv topic s)
    (hp : s.publisher = some pub) (hg : pub.shm.managedShm = some g) (hd : d ∈ s.inFlight)
    (hsender : d.sender = pub.serial) (hk : s.subscriber d.target = .alive shm) :
    (∃ s' i, i < kBlockNum ∧
        step topic s (.deliver d) = some (s', [.acquired d.target (.block g i)])) ↔
      Reads topic s d.target g := by
  obtain ⟨g', hpub⟩ := h.publisher pub hp
  obtain rfl : g' = g := Option.some.inj (hpub.managedShm_eq.symm.trans hg)
  have hpos := hpub.published d hd hsender
  have hlt := hpub.readPos_lt
  have hopen : Reads topic s d.target g' ↔ (shm.openOnly s.memory).managedShm = some g' := by
    rw [openOnly_managedShm, h.shmName_eq _ _ hk, Reads, hk, mapped_alive]
  rw [hopen]
  constructor
  · rintro ⟨s', i, -, hs⟩
    cases step_move h hs with
    | deliver _ shm' m sub es hk' hd' hcb =>
      obtain rfl := Subscriber.alive.inj (hk.symm.trans hk')
      cases hcb with
      | block g m hm => exact hm
  · intro hm
    obtain ⟨s', es, hs⟩ : ∃ s' es, step topic s (.deliver d) = some (s', es) := by
      simp only [step, hk]
      rw [if_pos hd]
      exact ⟨_, _, rfl⟩
    refine ⟨s', (s.memory.segment g').readPos.toNat, by omega, ?_⟩
    cases step_move h hs with
    | deliver _ shm' m sub es hk' hd' hcb =>
      obtain rfl := Subscriber.alive.inj (hk.symm.trans hk')
      cases hcb with
      | null hnull => simp [hm] at hnull
      | block g m hm' hpos' =>
        obtain rfl := Option.some.inj (hm.symm.trans hm')
        exact hs
      | assertFailed g hm' hneg =>
        obtain rfl := Option.some.inj (hm.symm.trans hm')
        exact absurd hneg (not_lt.mpr hpos)

end reads

/-- A notice of the live publisher makes its target acquire a block of the segment of that
publisher exactly when no step since the construction of the publisher, itself included, cut the
target off from the segment. -/
theorem notice_reads_segment_iff_not_cut_off (topic : String) (as bs : List (Action n))
    (s₀ s : State n) (es₀ es : List (Event n)) (pub : Publisher) (d : Notice n) (shm : ShmBlock)
    (hrun₀ : run (step topic) start as = some (s₀, es₀))
    (hrun : run (step topic) s₀ (.newPublisher :: bs) = some (s, es))
    (hbs : .destroyPublisher ∉ bs) (hp : s.publisher = some pub) (hd : d ∈ s.inFlight)
    (hsender : d.sender = pub.serial) (hk : s.subscriber d.target = .alive shm) :
    ∃ g, pub.shm.managedShm = some g ∧
      ((∃ s' i, i < kBlockNum ∧
          step topic s (.deliver d) = some (s', [.acquired d.target (.block g i)])) ↔
        StepsMeet (step topic) (fun u a => ¬CutsOff d.target u a) s₀ (.newPublisher :: bs)) := by
  have h₀ : Inv topic s₀ := inv_run inv_start hrun₀
  obtain ⟨u, e, f, hs, hr, -⟩ := (run_cons_iff _ s₀ s _ bs es).mp hrun
  have hmove := step_move h₀ hs
  have hu : Inv topic u := inv_move h₀ hmove
  have h : Inv topic s := inv_run hu hr
  obtain ⟨hp₀, rfl⟩ : s₀.publisher = none ∧ u = newPublisher topic s₀ := by
    cases hmove with
    | newPublisher hp₀ => exact ⟨hp₀, rfl⟩
  -- the new publisher owns a fresh segment, and keeps it as long as it lives
  have hpub₀ : Publishes (newPublisher topic s₀) s₀.memory.created := by
    rw [newPublisher_eq (h₀.names_of_none hp₀)]
    exact ⟨_, rfl, rfl⟩
  obtain ⟨pub', hp', hg⟩ := publishes_run hu hbs hpub₀ hr
  obtain rfl := Option.some.inj (hp.symm.trans hp')
  refine ⟨s₀.memory.created, hg, ?_⟩
  rw [deliver_block_iff h hp hg hd hsender hk, reads_run_iff hu hpub₀ hbs hr (by simp [hk]),
    reads_newPublisher_iff h₀ hp₀]
  exact ⟨fun hmeet => stepsMeet_cons hs hmeet.1 hmeet.2, fun hmeet => ⟨hmeet.1, hmeet.2 _ e hs⟩⟩

/-- A publisher, then a subscriber, then a message. -/
theorem notice_reads_segment_first_message :
    ∃ (s s' : State 1) (es : List (Event 1)) (i : ℕ),
      run (step "topic") start [.newPublisher, .newSubscriber 0, .acquire, .publish 0 [0]] =
        some (s, es) ∧ i < kBlockNum ∧
      step "topic" s (.deliver ⟨0, 0, .kNotifyRead⟩) = some (s', [.acquired 0 (.block 0 i)]) := by
  obtain ⟨g, hg, hiff⟩ := notice_reads_segment_iff_not_cut_off (n := 1) "topic" []
    [.newSubscriber 0, .acquire, .publish 0 [0]] _ _ _ _ _ ⟨0, 0, .kNotifyRead⟩ _ rfl rfl
    (by decide) rfl (by decide) rfl rfl
  obtain rfl : 0 = g := Option.some.inj hg
  obtain ⟨s', i, hi, hs⟩ := hiff.mpr
    ⟨fun hne => hne rfl, fun _ _ _ => ⟨id, fun _ _ _ => ⟨id, fun _ _ _ => ⟨id, fun _ _ _ =>
      trivial⟩⟩⟩⟩
  exact ⟨_, s', _, i, rfl, hi, hs⟩

/-- Two ways to miss the segment. After a restart of the publisher a subscriber goes on reading
the old segment 0 while segment 1 is written. After another subscriber is destroyed a new
subscriber gets `NULL`. -/
theorem subscribers_miss_live_segment :
    (∃ (s : State 1) (pub : Publisher),
      run (step "topic") start [.newPublisher, .newSubscriber 0, .acquire, .publish 0 [],
          .destroyPublisher, .newPublisher, .acquire, .publish 0 [0],
          .deliver ⟨1, 0, .kNotifyRead⟩] = some (s, [.acquired 0 (.block 0 0)]) ∧
        s.publisher = some pub ∧ pub.serial = 1 ∧ pub.shm.managedShm = some 1) ∧
    ∃ (s : State 2) (pub : Publisher),
      run (step "topic") start [.newPublisher, .newSubscriber 0, .destroySubscriber 0,
          .newSubscriber 1, .acquire, .publish 0 [1], .deliver ⟨0, 1, .kNotifyRead⟩] =
        some (s, [.acquired 1 .null]) ∧ s.publisher = some pub ∧ pub.serial = 0 :=
  ⟨⟨_, _, rfl, rfl, rfl, rfl⟩, ⟨_, _, rfl, rfl, rfl⟩⟩

end CodeC.ShmPubSub
