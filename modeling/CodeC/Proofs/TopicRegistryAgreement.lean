import CodeC.TopicRegistry

/-!
# When a subscriber shares the delegate of a publisher of its topic

`MessagePublisherDelegate::Stop` erases the registry entry of its topic whichever delegate is
stored there, and it runs for every publisher of the topic that is stopped or destroyed and for
every delegate that loses its last reference. A subscriber joins the delegate of an earlier
publisher exactly when no such call falls between the two constructions.
-/

namespace CodeC.TopicRegistry
open Library

variable {m n : ℕ}

/-- The action runs `MessagePublisherDelegate::Stop` of a delegate of `topic`: a publisher of the
topic is stopped or destroyed, or a subscriber goes that holds the last reference to its
delegate. -/
def Stops (topic : String) (s : State m n) : Action m n → Prop
  | .stop p => ∃ d, s.publisher p = some d ∧ d.topic = topic
  | .destroyPublisher p => ∃ d, s.publisher p = some d ∧ d.topic = topic
  | .destroySubscriber q => ∃ sub, s.subscriber q = some sub ∧ sub.publisher.topic = topic ∧
      ¬Held { s with subscriber := Function.update s.subscriber q none } sub.publisher
  | _ => False

/-- The delegate that the subscriber at `q` holds. -/
def State.delegateOf (s : State m n) (q : Fin n) : Option Delegate :=
  (s.subscriber q).map Subscriber.publisher

/-- What a call of `MessagePublisherDelegate::Stop` changes and what it leaves. -/
structure Stopped (topic : String) (s s' : State m n) : Prop where
  topics_eq : s'.topics = s.topics.erase topic
  created_eq : s'.created = s.created
  subscribers_eq : s'.subscribers = s.subscribers
  publisher_eq : s'.publisher = s.publisher
  delegateOf_eq : ∀ q, s'.delegateOf q = s.delegateOf q

lemma delegateStop_stopped {s s' : State m n} {d : Delegate} (h : delegateStop s d = some s') :
    Stopped d.topic s s' := by
  simp only [delegateStop] at h
  split_ifs at h with hheld
  obtain rfl := Option.some.inj h
  refine ⟨rfl, rfl, rfl, rfl, ?_⟩
  intro q
  simp only [State.delegateOf]
  by_cases hq : q ∈ s.subscribers d
  · rw [if_pos hq, Option.map_map]
    rfl
  · rw [if_neg hq]

lemma release_cases {s s' : State m n} {d : Delegate} (h : release s d = some s') :
    (Held s d ∧ s' = s) ∨ (¬Held s d ∧ Stopped d.topic s s') := by
  unfold release at h
  by_cases hheld : Held s d
  · rw [if_pos hheld] at h
    exact Or.inl ⟨hheld, (Option.some.inj h).symm⟩
  · rw [if_neg hheld] at h
    exact Or.inr ⟨hheld, delegateStop_stopped h⟩

/-- Every action, with its guard and its effect. -/
inductive Move (s : State m n) : Action m n → State m n → Prop
  | newPublisher (p : Fin m) (topic : String) (hp : s.publisher p = none) :
    Move s (.newPublisher p topic) (newPublisher s p topic)
  | newSubscriber (q : Fin n) (topic : String) (hq : s.subscriber q = none) :
    Move s (.newSubscriber q topic) (newSubscriber s q topic)
  | stop (p : Fin m) (d : Delegate) (s' : State m n) (hp : s.publisher p = some d)
      (h : Stopped d.topic s s') :
    Move s (.stop p) s'
  | destroyPublisher (p : Fin m) (d : Delegate) (s₁ s' : State m n) (hp : s.publisher p = some d)
      (h₁ : Stopped d.topic s s₁)
      (h : release { s₁ with publisher := Function.update s₁.publisher p none } d = some s') :
    Move s (.destroyPublisher p) s'
  | destroySubscriber (q : Fin n) (sub : Subscriber) (s' : State m n)
      (subscribers : Delegate → Finset (Fin n)) (hq : s.subscriber q = some sub)
      (hsub : ∀ d r, r ≠ q → (r ∈ subscribers d ↔ r ∈ s.subscribers d))
      (h : release { s with
        subscribers := subscribers
        subscriber := Function.update s.subscriber q none } sub.publisher = some s') :
    Move s (.destroySubscriber q) s'

theorem step_move {s s' : State m n} {a : Action m n} (h : step s a = some s') : Move s a s' := by
  cases a with
  | newPublisher p topic =>
    simp only [step] at h
    split_ifs at h with hp
    obtain rfl := Option.some.inj h
    exact .newPublisher p topic hp
  | newSubscriber q topic =>
    simp only [step] at h
    split_ifs at h with hq
    obtain rfl := Option.some.inj h
    exact .newSubscriber q topic hq
  | stop p =>
    obtain ⟨d, hp, hd⟩ := Option.bind_eq_some_iff.mp h
    exact .stop p d s' hp (delegateStop_stopped hd)
  | destroyPublisher p =>
    obtain ⟨d, hp, hd⟩ := Option.bind_eq_some_iff.mp h
    unfold destroyPublisher at hd
    cases hs : delegateStop s d with
    | none => simp [hs] at hd
    | some s₁ =>
      simp only [hs] at hd
      exact .destroyPublisher p d s₁ s' hp (delegateStop_stopped hs) hd
  | destroySubscriber q =>
    obtain ⟨sub, hq, hd⟩ := Option.bind_eq_some_iff.mp h
    refine .destroySubscriber q sub s' _ hq ?_ hd
    intro d r hr
    by_cases hstop : sub.stop = true
    · rw [if_pos hstop]
    · rw [if_neg hstop]
      by_cases hd : d = sub.publisher
      · subst hd
        rw [Function.update_self, Finset.mem_erase]
        exact and_iff_right hr
      · rw [Function.update_of_ne hd]

/-- What holds in every reachable state: delegates in use have been allocated, and a live
subscriber is in the `subscribers_` of its delegate. -/
structure Inv (s : State m n) : Prop where
  topics_lt : ∀ topic d, s.topics.lookup topic = some d → d.serial < s.created
  publisher_lt : ∀ p d, s.publisher p = some d → d.serial < s.created
  delegateOf_lt : ∀ q d, s.delegateOf q = some d → d.serial < s.created
  mem_subscribers : ∀ q d, s.delegateOf q = some d → q ∈ s.subscribers d

lemma inv_start : Inv (start : State m n) := by
  refine ⟨?_, ?_, ?_, ?_⟩
  · intro topic d h
    simp [start] at h
  · intro p d h
    simp [start] at h
  · intro q d h
    simp [start, State.delegateOf] at h
  · intro q d h
    simp [start, State.delegateOf] at h

lemma inv_stopped {s s' : State m n} {topic : String} (h : Inv s) (hs : Stopped topic s s') :
    Inv s' := by
  refine ⟨?_, ?_, ?_, ?_⟩
  · intro topic' d hd
    rw [hs.topics_eq] at hd
    rw [hs.created_eq]
    by_cases ht : topic' = topic
    · rw [ht, AList.lookup_erase] at hd
      simp at hd
    · rw [AList.lookup_erase_ne ht] at hd
      exact h.topics_lt topic' d hd
  · intro p d hp
    rw [hs.publisher_eq] at hp
    rw [hs.created_eq]
    exact h.publisher_lt p d hp
  · intro q d hq
    rw [hs.delegateOf_eq] at hq
    rw [hs.created_eq]
    exact h.delegateOf_lt q d hq
  · intro q d hq
    rw [hs.delegateOf_eq] at hq
    rw [hs.subscribers_eq]
    exact h.mem_subscribers q d hq

lemma inv_release {s s' : State m n} {d : Delegate} (hs : release s d = some s') (h : Inv s) :
    Inv s' := by
  obtain ⟨-, rfl⟩ | ⟨-, hstop⟩ := release_cases hs
  · exact h
  · exact inv_stopped h hstop

/-- What `GetOrNew` returns and what it leaves as it was. -/
structure Got (s : State m n) (topic : String) (s' : State m n) (d : Delegate) : Prop where
  inv : Inv s'
  lookup_eq : s'.topics.lookup topic = some d
  lookup_ne : ∀ topic', topic' ≠ topic → s'.topics.lookup topic' = s.topics.lookup topic'
  old_or_new : s.topics.lookup topic = some d ∨ s.topics.lookup topic = none ∧ d.serial = s.created
  created_le : s.created ≤ s'.created
  publisher_eq : s'.publisher = s.publisher
  subscriber_eq : s'.subscriber = s.subscriber

lemma got_getOrNew {s : State m n} (h : Inv s) (topic : String) :
    Got s topic (getOrNew s topic).1 (getOrNew s topic).2 := by
  unfold getOrNew
  cases hl : s.topics.lookup topic with
  | some d => exact ⟨h, hl, fun _ _ => rfl, Or.inl hl, le_rfl, rfl, rfl⟩
  | none =>
    refine ⟨⟨?_, ?_, ?_, ?_⟩, ?_, ?_, Or.inr ⟨hl, rfl⟩, Nat.le_succ _, rfl, rfl⟩
    · intro topic' d hd
      by_cases ht : topic' = topic
      · subst ht
        obtain rfl := Option.some.inj ((AList.lookup_insert _).symm.trans hd)
        exact Nat.lt_succ_self _
      · have hold := h.topics_lt topic' d ((AList.lookup_insert_ne ht).symm.trans hd)
        exact hold.trans (Nat.lt_succ_self _)
    · intro p d hp
      exact (h.publisher_lt p d hp).trans (Nat.lt_succ_self _)
    · intro q d hq
      exact (h.delegateOf_lt q d hq).trans (Nat.lt_succ_self _)
    · intro q d hq
      have hne : d ≠ ⟨s.created, topic⟩ := by
        rintro rfl
        exact (h.delegateOf_lt q _ hq).ne rfl
      change q ∈ Function.update s.subscribers _ ∅ d
      rw [Function.update_of_ne hne]
      exact h.mem_subscribers q d hq
    · exact AList.lookup_insert _
    · intro topic' ht
      exact AList.lookup_insert_ne ht

lemma newPublisher_publisher (s : State m n) (p : Fin m) (topic : String) :
    (newPublisher s p topic).publisher =
      Function.update (getOrNew s topic).1.publisher p (some (getOrNew s topic).2) := rfl

lemma newSubscriber_subscribers (s : State m n) (q : Fin n) (topic : String) :
    (newSubscriber s q topic).subscribers =
      Function.update (getOrNew s topic).1.subscribers (getOrNew s topic).2
        (insert q ((getOrNew s topic).1.subscribers (getOrNew s topic).2)) := rfl

lemma inv_newSubscriber {s : State m n} (h : Inv s) (q : Fin n) (topic : String) :
    Inv (newSubscriber s q topic) := by
  have hgot := got_getOrNew h topic
  refine ⟨hgot.inv.topics_lt, hgot.inv.publisher_lt, ?_, ?_⟩
  · intro r d hr
    by_cases hrq : r = q
    · subst hrq
      have hd : (getOrNew s topic).2 = d := by
        simpa [newSubscriber, State.delegateOf] using hr
      subst hd
      exact hgot.inv.topics_lt topic _ hgot.lookup_eq
    · apply hgot.inv.delegateOf_lt r d
      simpa [newSubscriber, State.delegateOf, hrq] using hr
  · intro r d hr
    rw [newSubscriber_subscribers]
    by_cases hrq : r = q
    · subst hrq
      have hd : (getOrNew s topic).2 = d := by
        simpa [newSubscriber, State.delegateOf] using hr
      subst hd
      rw [Function.update_self]
      exact Finset.mem_insert_self _ _
    · have hmem := hgot.inv.mem_subscribers r d
        (by simpa [newSubscriber, State.delegateOf, hrq] using hr)
      by_cases hd : d = (getOrNew s topic).2
      · subst hd
        rw [Function.update_self]
        exact Finset.mem_insert_of_mem hmem
      · rw [Function.update_of_ne hd]
        exact hmem

theorem inv_move {s s' : State m n} {a : Action m n} (h : Inv s) (hs : Move s a s') : Inv s' := by
  cases hs with
  | newPublisher p topic hp =>
    have hgot := got_getOrNew h topic
    refine ⟨hgot.inv.topics_lt, ?_, hgot.inv.delegateOf_lt, hgot.inv.mem_subscribers⟩
    intro p' d hp'
    rw [newPublisher_publisher] at hp'
    by_cases hpp : p' = p
    · rw [hpp, Function.update_self, Option.some.injEq] at hp'
      exact hp' ▸ hgot.inv.topics_lt topic _ hgot.lookup_eq
    · rw [Function.update_of_ne hpp] at hp'
      exact hgot.inv.publisher_lt p' d hp'
  | newSubscriber q topic hq => exact inv_newSubscriber h q topic
  | stop p d s' hp hstop => exact inv_stopped h hstop
  | destroyPublisher p d s₁ s' hp hstop hrel =>
    have hinv := inv_stopped h hstop
    refine inv_release hrel ⟨hinv.topics_lt, ?_, hinv.delegateOf_lt, hinv.mem_subscribers⟩
    intro p' d' hp'
    by_cases hpp : p' = p
    · simp [hpp] at hp'
    · exact hinv.publisher_lt p' d' ((Function.update_of_ne hpp ..).symm.trans hp')
  | destroySubscriber q sub s' subscribers hq hsub hrel =>
    refine inv_release hrel ⟨h.topics_lt, h.publisher_lt, ?_, ?_⟩
    · intro r d hr
      by_cases hrq : r = q
      · simp [State.delegateOf, hrq] at hr
      · exact h.delegateOf_lt r d (by simpa [State.delegateOf, hrq] using hr)
    · intro r d hr
      by_cases hrq : r = q
      · simp [State.delegateOf, hrq] at hr
      · exact (hsub d r hrq).mpr
          (h.mem_subscribers r d (by simpa [State.delegateOf, hrq] using hr))

theorem inv_step {s s' : State m n} {a : Action m n} {es : List Empty} (h : Inv s)
    (hs : silent step s a = some (s', es)) : Inv s' :=
  inv_move h (step_move (silent_eq_some hs))

theorem inv_run {s s' : State m n} {as : List (Action m n)} {es : List Empty} (h : Inv s)
    (hrun : run (silent step) s as = some (s', es)) : Inv s' :=
  run_invariant_state (silent step) Inv (fun _ _ _ _ => inv_step) h hrun

section registry

variable {topic : String} {s s' : State m n} {a : Action m n} {d : Delegate}

lemma lookup_stopped {topic' : String} (hs : Stopped topic' s s') :
    s'.topics.lookup topic = if topic = topic' then none else s.topics.lookup topic := by
  rw [hs.topics_eq]
  by_cases ht : topic = topic'
  · rw [if_pos ht, ht, AList.lookup_erase]
  · rw [if_neg ht, AList.lookup_erase_ne ht]

/-- A call of `Stop` for the topic empties its entry. -/
lemma lookup_of_stops (hs : Move s a s') (hstops : Stops topic s a) :
    s'.topics.lookup topic = none := by
  cases hs with
  | newPublisher => exact hstops.elim
  | newSubscriber => exact hstops.elim
  | stop p d s' hp hstop =>
    obtain ⟨d', hp', rfl⟩ := hstops
    obtain rfl := Option.some.inj (hp.symm.trans hp')
    rw [lookup_stopped hstop, if_pos rfl]
  | destroyPublisher p d s₁ s' hp hstop hrel =>
    obtain ⟨d', hp', rfl⟩ := hstops
    obtain rfl := Option.some.inj (hp.symm.trans hp')
    obtain ⟨-, rfl⟩ | ⟨-, hstop'⟩ := release_cases hrel
    · exact (lookup_stopped hstop).trans (if_pos rfl)
    · exact (lookup_stopped hstop').trans (if_pos rfl)
  | destroySubscriber q sub s' subscribers hq hsub hrel =>
    obtain ⟨sub', hq', rfl, hlast⟩ := hstops
    obtain rfl := Option.some.inj (hq.symm.trans hq')
    obtain ⟨hheld, -⟩ | ⟨-, hstop⟩ := release_cases hrel
    · exact absurd hheld hlast
    · exact (lookup_stopped hstop).trans (if_pos rfl)

lemma lookup_getOrNew (h : Inv s) (topic' : String) (hd : s.topics.lookup topic = some d) :
    (getOrNew s topic').1.topics.lookup topic = some d := by
  have hgot := got_getOrNew h topic'
  by_cases ht : topic = topic'
  · subst ht
    obtain hold | ⟨hnone, -⟩ := hgot.old_or_new
    · rw [hgot.lookup_eq, ← hold, hd]
    · simp [hd] at hnone
  · rw [hgot.lookup_ne topic ht, hd]

/-- Without one the entry stays. -/
lemma lookup_of_not_stops (h : Inv s) (hs : Move s a s') (hstops : ¬Stops topic s a)
    (hd : s.topics.lookup topic = some d) : s'.topics.lookup topic = some d := by
  cases hs with
  | newPublisher p topic' hp => exact lookup_getOrNew h topic' hd
  | newSubscriber q topic' hq => exact lookup_getOrNew h topic' hd
  | stop p d' s' hp hstop =>
    have ht : topic ≠ d'.topic := fun ht => hstops ⟨d', hp, ht.symm⟩
    rw [lookup_stopped hstop, if_neg ht, hd]
  | destroyPublisher p d' s₁ s' hp hstop hrel =>
    have ht : topic ≠ d'.topic := fun ht => hstops ⟨d', hp, ht.symm⟩
    have hd₁ : s₁.topics.lookup topic = some d := by rw [lookup_stopped hstop, if_neg ht, hd]
    obtain ⟨-, rfl⟩ | ⟨-, hstop'⟩ := release_cases hrel
    · exact hd₁
    · exact (lookup_stopped hstop').trans ((if_neg ht).trans hd₁)
  | destroySubscriber q sub s' subscribers hq hsub hrel =>
    obtain ⟨-, rfl⟩ | ⟨hlast, hstop⟩ := release_cases hrel
    · exact hd
    · have ht : topic ≠ sub.publisher.topic := fun ht => hstops ⟨sub, hq, ht.symm, hlast⟩
      exact (lookup_stopped hstop).trans ((if_neg ht).trans hd)

/-- The delegate has been allocated and is not the one that `GetOrNew` returns. -/
def Dropped (topic : String) (d : Delegate) (s : State m n) : Prop :=
  d.serial < s.created ∧ s.topics.lookup topic ≠ some d

lemma dropped_stopped {topic' : String} (hs : Stopped topic' s s') (h : Dropped topic d s) :
    Dropped topic d s' := by
  refine ⟨hs.created_eq ▸ h.1, ?_⟩
  rw [lookup_stopped hs]
  by_cases ht : topic = topic'
  · simp [ht]
  · rw [if_neg ht]
    exact h.2

lemma dropped_release {d' : Delegate} (hs : release s d' = some s') (h : Dropped topic d s) :
    Dropped topic d s' := by
  obtain ⟨-, rfl⟩ | ⟨-, hstop⟩ := release_cases hs
  · exact h
  · exact dropped_stopped hstop h

lemma dropped_getOrNew (hinv : Inv s) (topic' : String) (h : Dropped topic d s) :
    Dropped topic d (getOrNew s topic').1 := by
  have hgot := got_getOrNew hinv topic'
  refine ⟨h.1.trans_le hgot.created_le, ?_⟩
  by_cases ht : topic = topic'
  · subst ht
    rw [hgot.lookup_eq]
    intro heq
    obtain rfl := Option.some.inj heq
    obtain hold | ⟨-, hnew⟩ := hgot.old_or_new
    · exact h.2 hold
    · exact h.1.ne hnew
  · rw [hgot.lookup_ne topic ht]
    exact h.2

/-- A delegate that has left the registry never comes back. -/
lemma dropped_move (hinv : Inv s) (hs : Move s a s') (h : Dropped topic d s) :
    Dropped topic d s' := by
  cases hs with
  | newPublisher p topic' hp => exact dropped_getOrNew hinv topic' h
  | newSubscriber q topic' hq => exact dropped_getOrNew hinv topic' h
  | stop p d' s' hp hstop => exact dropped_stopped hstop h
  | destroyPublisher p d' s₁ s' hp hstop hrel =>
    have hdrop : Dropped topic d s₁ := dropped_stopped hstop h
    exact dropped_release hrel hdrop
  | destroySubscriber q sub s' subscribers hq hsub hrel => exact dropped_release hrel h

lemma dropped_run {as : List (Action m n)} {es : List Empty} (hinv : Inv s)
    (h : Dropped topic d s) (hrun : run (silent step) s as = some (s', es)) :
    s'.topics.lookup topic ≠ some d :=
  (run_invariant_under (silent step) (A := fun _ => True) (P := Dropped topic d)
    (fun _ _ _ _ => inv_step)
    (fun _ _ _ _ hu _ hs => dropped_move hu (step_move (silent_eq_some hs)))
    (fun _ _ => trivial) hinv h hrun).2

lemma created_le (hinv : Inv s) (hs : Move s a s') : s.created ≤ s'.created := by
  cases hs with
  | newPublisher p topic' hp => exact (got_getOrNew hinv topic').created_le
  | newSubscriber q topic' hq => exact (got_getOrNew hinv topic').created_le
  | stop p d' s' hp hstop => exact hstop.created_eq.ge
  | destroyPublisher p d' s₁ s' hp hstop hrel =>
    obtain ⟨-, rfl⟩ | ⟨-, hstop'⟩ := release_cases hrel
    · exact hstop.created_eq.ge
    · exact (hstop'.created_eq.trans hstop.created_eq).ge
  | destroySubscriber q sub s' subscribers hq hsub hrel =>
    obtain ⟨-, rfl⟩ | ⟨-, hstop⟩ := release_cases hrel
    · exact le_rfl
    · exact hstop.created_eq.ge

/-- The registry still holds the delegate after a run exactly when no step of the run stopped a
delegate of the topic. -/
theorem lookup_run_iff {as : List (Action m n)} {es : List Empty} (hinv : Inv s)
    (hd : s.topics.lookup topic = some d) (hrun : run (silent step) s as = some (s', es)) :
    s'.topics.lookup topic = some d ↔
      StepsMeet (silent step) (fun u a => ¬Stops topic u a) s as := by
  induction as generalizing s es with
  | nil =>
    simp only [run_nil, Option.some.injEq, Prod.mk.injEq] at hrun
    rw [← hrun.1]
    exact iff_of_true hd trivial
  | cons a as ih =>
    obtain ⟨u, e, f, hs, hr, -⟩ := (run_cons_iff _ s s' a as es).mp hrun
    have hmove := step_move (silent_eq_some hs)
    have hinv' := inv_move hinv hmove
    by_cases hstops : Stops topic s a
    · have hdrop : Dropped topic d u := by
        refine ⟨?_, by simp [lookup_of_stops hmove hstops]⟩
        exact (hinv.topics_lt topic d hd).trans_le (created_le hinv hmove)
      exact iff_of_false (dropped_run hinv' hdrop hr) fun hmeet => hmeet.1 hstops
    · rw [ih hinv' (lookup_of_not_stops hinv hmove hstops hd) hr]
      exact ⟨stepsMeet_cons hs hstops, fun hmeet => hmeet.2 u e hs⟩

end registry

section references

variable {s s' : State m n} {a : Action m n} {d : Delegate}

lemma release_publisher {d' : Delegate} (hs : release s d' = some s') :
    s'.publisher = s.publisher := by
  obtain ⟨-, rfl⟩ | ⟨-, hstop⟩ := release_cases hs
  · rfl
  · exact hstop.publisher_eq

lemma release_delegateOf {d' : Delegate} (hs : release s d' = some s') (q : Fin n) :
    s'.delegateOf q = s.delegateOf q := by
  obtain ⟨-, rfl⟩ | ⟨-, hstop⟩ := release_cases hs
  · rfl
  · exact hstop.delegateOf_eq q

/-- A publisher keeps its delegate until it is destroyed. -/
lemma publisher_move {p : Fin m} (hinv : Inv s) (hs : Move s a s') (ha : a ≠ .destroyPublisher p)
    (hp : s.publisher p = some d) : s'.publisher p = some d := by
  cases hs with
  | newPublisher p' topic hp' =>
    have hne : p ≠ p' := by
      rintro rfl
      simp [hp] at hp'
    rw [newPublisher_publisher, Function.update_of_ne hne, (got_getOrNew hinv topic).publisher_eq, hp]
  | newSubscriber q topic hq =>
    change (getOrNew s topic).1.publisher p = some d
    rw [(got_getOrNew hinv topic).publisher_eq, hp]
  | stop p' d' s' hp' hstop => rw [hstop.publisher_eq, hp]
  | destroyPublisher p' d' s₁ s' hp' hstop hrel =>
    have hne : p ≠ p' := by
      rintro rfl
      exact ha rfl
    rw [release_publisher hrel]
    change Function.update s₁.publisher p' none p = some d
    rw [Function.update_of_ne hne, hstop.publisher_eq, hp]
  | destroySubscriber q sub s' subscribers hq hsub hrel => rw [release_publisher hrel, hp]

/-- A subscriber keeps its delegate until it is destroyed. -/
lemma delegateOf_move {q : Fin n} (hinv : Inv s) (hs : Move s a s') (ha : a ≠ .destroySubscriber q)
    (hq : s.delegateOf q = some d) : s'.delegateOf q = some d := by
  cases hs with
  | newPublisher p topic hp =>
    change ((getOrNew s topic).1.subscriber q).map _ = some d
    rw [(got_getOrNew hinv topic).subscriber_eq]
    exact hq
  | newSubscriber q' topic hq' =>
    have hne : q ≠ q' := by
      rintro rfl
      simp [State.delegateOf, hq'] at hq
    change (Function.update (getOrNew s topic).1.subscriber q' _ q).map _ = some d
    rw [Function.update_of_ne hne, (got_getOrNew hinv topic).subscriber_eq]
    exact hq
  | stop p d' s' hp hstop => rw [hstop.delegateOf_eq, hq]
  | destroyPublisher p d' s₁ s' hp hstop hrel =>
    rw [release_delegateOf hrel]
    exact (hstop.delegateOf_eq q).trans hq
  | destroySubscriber q' sub s' subscribers hq' hsub hrel =>
    have hne : q ≠ q' := by
      rintro rfl
      exact ha rfl
    rw [release_delegateOf hrel]
    change (Function.update s.subscriber q' none q).map _ = some d
    rw [Function.update_of_ne hne]
    exact hq

lemma publisher_run {p : Fin m} {as : List (Action m n)} {es : List Empty} (hinv : Inv s)
    (has : .destroyPublisher p ∉ as) (hp : s.publisher p = some d)
    (hrun : run (silent step) s as = some (s', es)) : s'.publisher p = some d :=
  run_invariant_under (silent step) (A := (· ≠ .destroyPublisher p))
    (P := fun u => u.publisher p = some d) (fun _ _ _ _ => inv_step)
    (fun _ _ _ _ hu ha hs => publisher_move hu (step_move (silent_eq_some hs)) ha)
    (fun _ ha hne => has (hne ▸ ha)) hinv hp hrun

lemma delegateOf_run {q : Fin n} {as : List (Action m n)} {es : List Empty} (hinv : Inv s)
    (has : .destroySubscriber q ∉ as) (hq : s.delegateOf q = some d)
    (hrun : run (silent step) s as = some (s', es)) : s'.delegateOf q = some d :=
  run_invariant_under (silent step) (A := (· ≠ .destroySubscriber q))
    (P := fun u => u.delegateOf q = some d) (fun _ _ _ _ => inv_step)
    (fun _ _ _ _ hu ha hs => delegateOf_move hu (step_move (silent_eq_some hs)) ha)
    (fun _ ha hne => has (hne ▸ ha)) hinv hq hrun

end references

/-- `GetOrNew` returns a delegate allocated before exactly when the registry holds it. -/
lemma getOrNew_eq_iff {s : State m n} {d : Delegate} (h : Inv s) (topic : String)
    (hd : d.serial < s.created) :
    (getOrNew s topic).2 = d ↔ s.topics.lookup topic = some d := by
  obtain hold | ⟨hnone, hnew⟩ := (got_getOrNew h topic).old_or_new
  · rw [hold, Option.some.injEq]
  · rw [hnone]
    constructor
    · rintro rfl
      exact absurd hnew hd.ne
    · rintro ⟨⟩

/-- A subscriber constructed during the life of a publisher of its topic holds the delegate of
that publisher, and is among the subscribers that its `Publish` iterates over, exactly when no
delegate of the topic has been stopped between the two constructions. -/
theorem shares_delegate_iff_none_stopped (bs cs ds : List (Action m n)) (p : Fin m) (q : Fin n)
    (topic : String) (s₁ s₂ : State m n) (es₁ es₂ : List Empty)
    (hrun₁ : run (silent step) start (bs ++ [.newPublisher p topic]) = some (s₁, es₁))
    (hrun₂ : run (silent step) s₁ (cs ++ .newSubscriber q topic :: ds) = some (s₂, es₂))
    (hp : .destroyPublisher p ∉ cs ++ ds) (hq : .destroySubscriber q ∉ ds) :
    ∃ d sub, s₂.publisher p = some d ∧ s₂.subscriber q = some sub ∧
      ((sub.publisher = d ∧ q ∈ s₂.subscribers d) ↔
        StepsMeet (silent step) (fun s a => ¬Stops topic s a) s₁ cs) := by
  obtain ⟨s₀, e₀, f₀, hbs, hnew, -⟩ := (run_append_iff _ _ _ _ _ _).mp hrun₁
  obtain ⟨s₁', e₁, f₁, hstep₁, hnil, -⟩ := (run_cons_iff _ _ _ _ _ _).mp hnew
  obtain ⟨rfl, -⟩ := Prod.mk.inj (Option.some.inj hnil)
  obtain ⟨u, e₂, f₂, hcs, hsub, -⟩ := (run_append_iff _ _ _ _ _ _).mp hrun₂
  obtain ⟨v, e₃, f₃, hstep₂, hds, -⟩ := (run_cons_iff _ _ _ _ _ _).mp hsub
  have hinv₀ : Inv s₀ := inv_run inv_start hbs
  have hmove₁ := step_move (silent_eq_some hstep₁)
  have hmove₂ := step_move (silent_eq_some hstep₂)
  have hinv₁ : Inv s₁' := inv_move hinv₀ hmove₁
  have hinvu : Inv u := inv_run hinv₁ hcs
  have hinvv : Inv v := inv_move hinvu hmove₂
  have hinv₂ : Inv s₂ := inv_run hinvv hds
  -- the publisher gets the delegate that the registry then holds, and keeps it
  obtain ⟨d, hd, hpd⟩ : ∃ d, s₁'.topics.lookup topic = some d ∧ s₁'.publisher p = some d := by
    cases hmove₁ with
    | newPublisher p topic hp₀ =>
      exact ⟨_, (got_getOrNew hinv₀ topic).lookup_eq, Function.update_self ..⟩
  have hpu := publisher_run hinv₁ (fun h => hp (List.mem_append_left _ h)) hpd hcs
  have hpv := publisher_move hinvu hmove₂ (by simp) hpu
  have hp₂ := publisher_run hinvv (fun h => hp (List.mem_append_right _ h)) hpv hds
  -- the subscriber gets what `GetOrNew` returns to it, and keeps that
  have hqv : v.delegateOf q = some (getOrNew u topic).2 := by
    cases hmove₂ with
    | newSubscriber q topic hq₀ =>
      change (Function.update (getOrNew u topic).1.subscriber q _ q).map _ = _
      rw [Function.update_self]
      rfl
  have hq₂ := delegateOf_run hinvv hq hqv hds
  obtain ⟨sub, hsub₂, hpub⟩ := Option.map_eq_some_iff.mp hq₂
  refine ⟨d, sub, hp₂, hsub₂, ?_⟩
  rw [← lookup_run_iff hinv₁ hd hcs,
    ← getOrNew_eq_iff hinvu topic (hinvu.publisher_lt p d hpu), hpub]
  refine and_iff_left_of_imp fun heq => ?_
  exact hinv₂.mem_subscribers q d (heq ▸ hq₂)

/-- A second publisher of the topic does not come between a publisher and a later subscriber. -/
theorem shares_delegate_two_publishers :
    ∃ (s : State 2 1) (d : Delegate) (sub : Subscriber), s.publisher 0 = some d ∧
      s.subscriber 0 = some sub ∧ sub.publisher = d ∧ 0 ∈ s.subscribers d := by
  have h := shares_delegate_iff_none_stopped (m := 2) (n := 1) [] [.newPublisher 1 "topic"] []
    0 0 "topic" _ _ _ _ rfl rfl (by decide) (by decide)
  obtain ⟨d, sub, hp, hq, hiff⟩ := h
  exact ⟨_, d, sub, hp, hq, hiff.mpr ⟨id, fun _ _ _ => trivial⟩⟩

/-- Two publishers share a topic, one of them goes, and a new subscriber is not in the set that
the other one publishes to. -/
theorem destroyed_sibling_splits_topic :
    ∃ (s : State 2 1) (es : List Empty),
      run (silent step) start [.newPublisher 0 "topic", .newPublisher 1 "topic",
        .destroyPublisher 0, .newSubscriber 0 "topic"] = some (s, es) ∧
      s.publisher 1 = some ⟨0, "topic"⟩ ∧ s.subscriber 0 = some ⟨⟨1, "topic"⟩, false⟩ ∧
      0 ∉ s.subscribers ⟨0, "topic"⟩ := by
  refine ⟨_, _, rfl, ?_⟩
  decide

end CodeC.TopicRegistry
