import CodeC.AsyncSubscribers
import CodeC.Library.Slot

/-!
# When the subscribers of `20221211-pubsub-libuv-multithread` get a message once

`async_subscriber_cb` leaves the message in `buffer_`, so a message is delivered again whenever a
flag that its `Post` sets is cleared after a load that has already seen it. This needs a `Post`
between its store and its send while the loop is between clearing the flag and loading `buffer_`.
-/

namespace CodeC.AsyncSubscribers
open Library

variable {n : ℕ}

/-- What has happened so far: all messages published, those stored for subscriber `k`, those its
loop loaded and those passed to its callback. -/
structure History where
  published : List Message
  posted : List Message
  loaded : List Message
  delivered : List Message

def record (k : Fin n) (h : History) : Event n → History
  | .published msg => { h with published := h.published ++ [msg] }
  | .posted j msg => if j = k then { h with posted := h.posted ++ [msg] } else h
  | .loaded j msg => if j = k then { h with loaded := h.loaded ++ [msg] } else h
  | .delivered j msg => if j = k then { h with delivered := h.delivered ++ [msg] } else h

def history (k : Fin n) (es : List (Event n)) : History := observe (record k) ⟨[], [], [], []⟩ es

/-- No `Post` to `k` is between its store and its send while the loop of `k` is between clearing
the flag and loading `buffer_`. -/
def Apart (k : Fin n) (s : State n) : Prop :=
  ∀ msg todo, s.publishing = .sending msg k todo → s.loop k ≠ .entered ∧ s.loop k ≠ .checked

/-- Every step of the system, with its guard and its effect. -/
inductive Move (s : State n) : Action n → State n → List (Event n) → Prop
  | publish (buf : Option ℕ) (hp : s.publishing = .unlocked) :
    Move s (.publish buf) (publish s buf).1 (publish s buf).2
  | unlock (msg : Message) (hp : s.publishing = .posting msg []) :
    Move s .publisher { s with publishing := .unlocked } []
  | store (msg : Message) (k : Fin n) (todo : List (Fin n))
      (hp : s.publishing = .posting msg (k :: todo)) :
    Move s .publisher (postStore s msg k todo).1 (postStore s msg k todo).2
  | send (msg : Message) (k : Fin n) (todo : List (Fin n))
      (hp : s.publishing = .sending msg k todo) :
    Move s .publisher (postSend s msg k todo) []
  | subscribe (k : Fin n) (hk : s.loop k = .unborn) :
    Move s (.subscribe k)
      { s with
        subscribers := Function.update s.subscribers k true
        loop := Function.update s.loop k .idle } []
  | enter (k : Fin n) (hk : s.loop k = .idle) (hpending : s.pending k = true) :
    Move s (.loop k)
      { s with
        pending := Function.update s.pending k false
        loop := Function.update s.loop k .entered } []
  | stopSeen (k : Fin n) (hk : s.loop k = .entered) :
    Move s (.loop k) (s.setLoop k .closing) []
  | check (k : Fin n) (hk : s.loop k = .entered) (hstop : s.stop k = false) :
    Move s (.loop k) (s.setLoop k .checked) []
  | load (k : Fin n) (hk : s.loop k = .checked) :
    Move s (.loop k) (loadBuffer s k).1 (loadBuffer s k).2
  | callback (k : Fin n) (msg : Option Message) (hk : s.loop k = .loaded msg) :
    Move s (.loop k) (callback s k msg).1 (callback s k msg).2
  | leave (k : Fin n) (hk : s.loop k = .closing) :
    Move s (.loop k)
      { s with
        subscribers := Function.update s.subscribers k false
        loop := Function.update s.loop k .closed } []
  | stop (k : Fin n) :
    Move s (.stop k)
      { s with
        stop := Function.update s.stop k true
        stopSends := Function.update s.stopSends k (s.stopSends k + 1) } []
  | stopSend (k : Fin n) (hsends : s.stopSends k ≠ 0) :
    Move s (.stopSend k)
      { s with
        stopSends := Function.update s.stopSends k (s.stopSends k - 1)
        pending := Function.update s.pending k true } []

lemma loop_move {s s' : State n} {k : Fin n} {es : List (Event n)}
    (h : step s (.loop k) = some (s', es)) : Move s (.loop k) s' es := by
  cases hk : s.loop k with
  | unborn => simp [step, hk] at h
  | idle =>
    simp only [step, hk, runCallback] at h
    by_cases hpending : s.pending k = true
    · rw [if_pos hpending, Option.map_some] at h
      obtain ⟨rfl, rfl⟩ := Prod.mk.inj (Option.some.inj h)
      exact .enter k hk hpending
    · simp [hpending] at h
  | entered =>
    simp only [step, hk, loadStop] at h
    obtain ⟨rfl, rfl⟩ := Prod.mk.inj (Option.some.inj h)
    cases hstop : s.stop k with
    | true => exact .stopSeen k hk
    | false => exact .check k hk hstop
  | checked =>
    simp only [step, hk] at h
    obtain ⟨rfl, rfl⟩ := Prod.mk.inj (Option.some.inj h)
    exact .load k hk
  | loaded msg =>
    simp only [step, hk] at h
    obtain ⟨rfl, rfl⟩ := Prod.mk.inj (Option.some.inj h)
    exact .callback k msg hk
  | closing =>
    simp only [step, hk, leave] at h
    cases hp : s.publishing with
    | unlocked =>
      simp only [hp, Option.map_some] at h
      obtain ⟨rfl, rfl⟩ := Prod.mk.inj (Option.some.inj h)
      rw [← hp]
      exact .leave k hk
    | posting msg todo => simp [hp] at h
    | sending msg j todo => simp [hp] at h
  | closed => simp [step, hk] at h

theorem step_move {s s' : State n} {a : Action n} {es : List (Event n)}
    (h : step s a = some (s', es)) : Move s a s' es := by
  cases a with
  | publish buf =>
    cases hp : s.publishing with
    | unlocked =>
      simp only [step, hp] at h
      obtain ⟨rfl, rfl⟩ := Prod.mk.inj (Option.some.inj h)
      exact .publish buf hp
    | posting msg todo => simp [step, hp] at h
    | sending msg k todo => simp [step, hp] at h
  | publisher =>
    cases hp : s.publishing with
    | unlocked => simp [step, hp] at h
    | posting msg todo =>
      cases todo with
      | nil =>
        simp only [step, hp] at h
        obtain ⟨rfl, rfl⟩ := Prod.mk.inj (Option.some.inj h)
        exact .unlock msg hp
      | cons k todo =>
        simp only [step, hp] at h
        obtain ⟨rfl, rfl⟩ := Prod.mk.inj (Option.some.inj h)
        exact .store msg k todo hp
    | sending msg k todo =>
      simp only [step, hp] at h
      obtain ⟨rfl, rfl⟩ := Prod.mk.inj (Option.some.inj h)
      exact .send msg k todo hp
  | subscribe k =>
    cases hp : s.publishing <;> cases hk : s.loop k <;>
      simp only [step, hp, hk, reduceCtorEq] at h
    obtain ⟨rfl, rfl⟩ := Prod.mk.inj (Option.some.inj h)
    rw [← hp]
    exact .subscribe k hk
  | loop k => exact loop_move h
  | stop k =>
    obtain ⟨rfl, rfl⟩ := Prod.mk.inj (Option.some.inj h)
    exact .stop k
  | stopSend k =>
    simp only [step] at h
    split_ifs at h with hsends
    obtain ⟨rfl, rfl⟩ := Prod.mk.inj (Option.some.inj h)
    exact .stopSend k hsends

/-- The subscribers that the current `Publish` has still to post to. -/
def Publishing.todo : Publishing n → List (Fin n)
  | .unlocked => []
  | .posting _ todo => todo
  | .sending _ _ todo => todo

/-- The message that the current `Publish` has still to post to `k`. -/
def Publishing.upcoming (k : Fin n) : Publishing n → List Message
  | .unlocked => []
  | .posting msg todo => if k ∈ todo then [msg] else []
  | .sending msg _ todo => if k ∈ todo then [msg] else []

/-- The message that a loop has loaded and not yet passed on. -/
def Loop.carried : Loop → List Message
  | .loaded msg => msg.toList
  | _ => []

/-- The loop of `k` is going to load `buffer_`, unless it stops. -/
def Due (k : Fin n) (s : State n) : Prop :=
  (s.stop k = false ∧ (s.pending k = true ∨ s.loop k = .entered)) ∨ s.loop k = .checked ∨
    ∃ msg todo, s.publishing = .sending msg k todo

/-- What holds of subscriber `k` as long as its loop and the posts to it keep apart. `unread` is
the content of `buffer_` when the loop has not loaded it yet. -/
structure Inv (k : Fin n) (s : State n) (h : History) : Prop where
  published_lt : ∀ msg ∈ h.published, msg.serial < s.published
  published_nodup : h.published.Nodup
  todo_nodup : s.publishing.todo.Nodup
  posted_sublist : (h.posted ++ s.publishing.upcoming k).Sublist h.published
  buffer_eq : s.buffer k = h.posted.getLast?
  slot : ∃ unread, Conflates h.posted h.loaded unread ∧ (Due k s → unread = s.buffer k)
  flag_clear : s.loop k = .entered ∨ s.loop k = .checked → s.pending k = true → s.stop k = true
  stopSends : s.stopSends k ≠ 0 → s.stop k = true
  delivered_sublist : (h.delivered ++ (s.loop k).carried).Sublist h.loaded

lemma inv_start (k : Fin n) : Inv k start ⟨[], [], [], []⟩ :=
  ⟨by simp, List.nodup_nil, List.nodup_nil, List.Sublist.refl _, rfl,
    ⟨none, .init, fun _ => rfl⟩, by simp [start], by simp [start], List.Sublist.refl _⟩

section invariant

variable {k : Fin n} {s s' : State n} {h : History}

/-- The publisher does not move and nothing is stored or loaded. -/
lemma Inv.keep (hinv : Inv k s h) (hpubd : s'.published = s.published)
    (hp : s'.publishing = s.publishing) (hbuf : s'.buffer k = s.buffer k)
    (hdue : Due k s' → Due k s)
    (hflag : s'.loop k = .entered ∨ s'.loop k = .checked → s'.pending k = true → s'.stop k = true)
    (hsends : s'.stopSends k ≠ 0 → s'.stop k = true)
    (hcarried : (s'.loop k).carried = (s.loop k).carried) : Inv k s' h := by
  obtain ⟨unread, hslot, hunread⟩ := hinv.slot
  refine ⟨?_, hinv.published_nodup, ?_, ?_, ?_, ⟨unread, hslot, ?_⟩, hflag, hsends, ?_⟩
  · rw [hpubd]
    exact hinv.published_lt
  · rw [hp]
    exact hinv.todo_nodup
  · rw [hp]
    exact hinv.posted_sublist
  · rw [hbuf]
    exact hinv.buffer_eq
  · rw [hbuf]
    exact fun hd => hunread (hdue hd)
  · rw [hcarried]
    exact hinv.delivered_sublist

/-- The step does not concern subscriber `k`. -/
lemma Inv.same (hinv : Inv k s h) (hpubd : s'.published = s.published)
    (hp : s'.publishing = s.publishing) (hbuf : s'.buffer k = s.buffer k)
    (hstop : s'.stop k = s.stop k) (hsends : s'.stopSends k = s.stopSends k)
    (hpending : s'.pending k = s.pending k) (hloop : s'.loop k = s.loop k) : Inv k s' h := by
  refine hinv.keep hpubd hp hbuf ?_ ?_ ?_ (by rw [hloop])
  · unfold Due
    rw [hstop, hpending, hloop, hp]
    exact id
  · rw [hloop, hpending, hstop]
    exact hinv.flag_clear
  · rw [hsends, hstop]
    exact hinv.stopSends

lemma inv_publish (hinv : Inv k s h) (buf : Option ℕ) (hp : s.publishing = .unlocked) :
    Inv k (publish s buf).1 (observe (record k) h (publish s buf).2) := by
  obtain ⟨unread, hslot, hunread⟩ := hinv.slot
  have hposted := hinv.posted_sublist
  rw [hp, Publishing.upcoming, List.append_nil] at hposted
  simp only [publish, observe_cons, observe_nil, record]
  refine ⟨numbered_lt_concat hinv.published_lt rfl,
    numbered_nodup_concat hinv.published_lt hinv.published_nodup rfl,
    (List.nodup_finRange n).filter _, ?_, hinv.buffer_eq, ⟨unread, hslot, ?_⟩,
    hinv.flag_clear, hinv.stopSends, hinv.delivered_sublist⟩
  · simp only [Publishing.upcoming]
    split_ifs
    · exact hposted.append (List.Sublist.refl _)
    · exact hposted.append (List.nil_sublist _)
  · intro hdue
    apply hunread
    simpa [Due, hp] using hdue

lemma inv_unlock (hinv : Inv k s h) {msg : Message} (hp : s.publishing = .posting msg []) :
    Inv k { s with publishing := .unlocked } h := by
  obtain ⟨unread, hslot, hunread⟩ := hinv.slot
  refine ⟨hinv.published_lt, hinv.published_nodup, List.nodup_nil, ?_, hinv.buffer_eq,
    ⟨unread, hslot, ?_⟩, hinv.flag_clear, hinv.stopSends, hinv.delivered_sublist⟩
  · simpa [hp, Publishing.upcoming] using hinv.posted_sublist
  · intro hdue
    apply hunread
    simpa [Due, hp] using hdue

lemma inv_store (hinv : Inv k s h) {msg : Message} {j : Fin n} {todo : List (Fin n)}
    (hp : s.publishing = .posting msg (j :: todo)) :
    Inv k (postStore s msg j todo).1 (observe (record k) h (postStore s msg j todo).2) := by
  obtain ⟨unread, hslot, hunread⟩ := hinv.slot
  have hnodup := hinv.todo_nodup
  rw [hp, Publishing.todo, List.nodup_cons] at hnodup
  have hposted := hinv.posted_sublist
  simp only [hp, Publishing.upcoming, List.mem_cons] at hposted
  simp only [postStore, observe_cons, observe_nil, record]
  by_cases hjk : j = k
  · subst hjk
    rw [if_pos (Or.inl rfl)] at hposted
    rw [if_pos rfl]
    refine ⟨hinv.published_lt, hinv.published_nodup, hnodup.2, ?_, ?_,
      ⟨some msg, hslot.put msg, fun _ => ?_⟩, hinv.flag_clear, hinv.stopSends,
      hinv.delivered_sublist⟩
    · simpa [Publishing.upcoming, hnodup.1] using hposted
    · simp
    · simp
  · have hkj : k ≠ j := Ne.symm hjk
    rw [if_neg hjk]
    refine ⟨hinv.published_lt, hinv.published_nodup, hnodup.2, ?_, ?_, ⟨unread, hslot, ?_⟩,
      hinv.flag_clear, hinv.stopSends, hinv.delivered_sublist⟩
    · simpa [Publishing.upcoming, hkj] using hposted
    · simpa [hkj] using hinv.buffer_eq
    · intro hdue
      simp only [Function.update_of_ne hkj]
      apply hunread
      simpa [Due, hp, hjk] using hdue

lemma inv_send (hinv : Inv k s h) (hapart : Apart k s) {msg : Message} {j : Fin n}
    {todo : List (Fin n)} (hp : s.publishing = .sending msg j todo) :
    Inv k (postSend s msg j todo) h := by
  obtain ⟨unread, hslot, hunread⟩ := hinv.slot
  have hnodup := hinv.todo_nodup
  have hposted := hinv.posted_sublist
  rw [hp] at hnodup hposted
  by_cases hjk : j = k
  · subst hjk
    -- the flag is set for a message that the loop has not seen
    have hloop := hapart msg todo hp
    refine ⟨hinv.published_lt, hinv.published_nodup, hnodup, hposted, hinv.buffer_eq,
      ⟨unread, hslot, fun _ => hunread (Or.inr (Or.inr ⟨msg, todo, hp⟩))⟩, ?_, hinv.stopSends,
      hinv.delivered_sublist⟩
    rintro (hentered | hchecked)
    · exact absurd hentered hloop.1
    · exact absurd hchecked hloop.2
  · have hkj : k ≠ j := Ne.symm hjk
    refine ⟨hinv.published_lt, hinv.published_nodup, hnodup, hposted, hinv.buffer_eq,
      ⟨unread, hslot, ?_⟩, ?_, hinv.stopSends, hinv.delivered_sublist⟩
    · intro hdue
      apply hunread
      simpa [Due, hp, postSend, hkj, hjk] using hdue
    · simpa [postSend, hkj] using hinv.flag_clear

lemma inv_load (hinv : Inv k s h) (hapart : Apart k s) {j : Fin n} (hj : s.loop j = .checked) :
    Inv k (loadBuffer s j).1 (observe (record k) h (loadBuffer s j).2) := by
  by_cases hjk : j = k
  · subst hjk
    obtain ⟨unread, hslot, hunread⟩ := hinv.slot
    obtain rfl := hunread (Or.inr (Or.inl hj))
    have hdel := hinv.delivered_sublist
    rw [hj] at hdel
    have hobs : observe (record j) h (loadBuffer s j).2 =
        { h with loaded := h.loaded ++ (s.buffer j).toList } := by
      unfold loadBuffer
      cases s.buffer j <;> simp [record]
    rw [hobs]
    -- nothing sets the flag again before the next store
    have hidle : ¬Due j (loadBuffer s j).1 := by
      rintro (⟨hstop, hpending | hentered⟩ | hchecked | ⟨msg, todo, hp⟩)
      · have hset := hinv.flag_clear (Or.inr hj) hpending
        exact absurd (hset.symm.trans hstop) (by simp)
      · simp [loadBuffer, State.setLoop] at hentered
      · simp [loadBuffer, State.setLoop] at hchecked
      · exact (hapart msg todo hp).2 hj
    refine ⟨hinv.published_lt, hinv.published_nodup, hinv.todo_nodup, hinv.posted_sublist,
      hinv.buffer_eq, ⟨none, hslot.take, fun hdue => absurd hdue hidle⟩, ?_, hinv.stopSends, ?_⟩
    · simp [loadBuffer, State.setLoop]
    · simp only [loadBuffer, State.setLoop, Function.update_self]
      exact ((List.sublist_append_left _ _).trans hdel).append (List.Sublist.refl _)
  · have hobs : observe (record k) h (loadBuffer s j).2 = h := by
      unfold loadBuffer
      cases s.buffer j <;> simp [record, hjk]
    rw [hobs]
    exact hinv.same rfl rfl rfl rfl rfl rfl (Function.update_of_ne (Ne.symm hjk) ..)

lemma inv_callback (hinv : Inv k s h) {j : Fin n} {msg : Option Message}
    (hj : s.loop j = .loaded msg) :
    Inv k (callback s j msg).1 (observe (record k) h (callback s j msg).2) := by
  by_cases hjk : j = k
  · subst hjk
    obtain ⟨unread, hslot, hunread⟩ := hinv.slot
    have hdel := hinv.delivered_sublist
    rw [hj] at hdel
    have hobs : observe (record j) h (callback s j msg).2 =
        { h with delivered := h.delivered ++ (msg.filter fun m => m.buf.isSome).toList } := by
      unfold callback
      cases msg.filter fun m => m.buf.isSome <;> simp [record]
    rw [hobs]
    refine ⟨hinv.published_lt, hinv.published_nodup, hinv.todo_nodup, hinv.posted_sublist,
      hinv.buffer_eq, ⟨unread, hslot, ?_⟩, ?_, hinv.stopSends, ?_⟩
    · intro hdue
      apply hunread
      simpa [Due, callback, State.setLoop, hj] using hdue
    · simp [callback, State.setLoop]
    · have hfilter : (msg.filter fun m => m.buf.isSome).toList.Sublist msg.toList := by
        rw [Option.toList_filter]
        exact List.filter_sublist
      simpa [callback, State.setLoop, Loop.carried] using
        ((List.Sublist.refl _).append hfilter).trans hdel
  · have hobs : observe (record k) h (callback s j msg).2 = h := by
      unfold callback
      cases msg.filter fun m => m.buf.isSome <;> simp [record, hjk]
    rw [hobs]
    exact hinv.same rfl rfl rfl rfl rfl rfl (Function.update_of_ne (Ne.symm hjk) ..)

/-- The loop of `j` moves without a load, to a point that no load follows. -/
lemma inv_setLoop (hinv : Inv k s h) {j : Fin n} (pc : Loop) (subscribers : Fin n → Bool)
    (hpc : pc ≠ .entered ∧ pc ≠ .checked) (hcarried : pc.carried = (s.loop j).carried) :
    Inv k { s with subscribers := subscribers, loop := Function.update s.loop j pc } h := by
  by_cases hjk : j = k
  · subst hjk
    refine hinv.keep rfl rfl rfl ?_ ?_ hinv.stopSends (by simpa using hcarried)
    · intro hdue
      simp only [Due, Function.update_self, hpc.1, hpc.2, or_false, false_or] at hdue
      exact hdue.imp (And.imp_right Or.inl) Or.inr
    · simp [hpc.1, hpc.2]
  · exact hinv.same rfl rfl rfl rfl rfl rfl (Function.update_of_ne (Ne.symm hjk) ..)

lemma inv_enter (hinv : Inv k s h) {j : Fin n} (hj : s.loop j = .idle)
    (hpending : s.pending j = true) :
    Inv k { s with
      pending := Function.update s.pending j false
      loop := Function.update s.loop j .entered } h := by
  by_cases hjk : j = k
  · subst hjk
    refine hinv.keep rfl rfl rfl ?_ (by simp) hinv.stopSends (by simp [hj, Loop.carried])
    intro hdue
    simp only [Due, Function.update_self, reduceCtorEq, false_or, or_true, and_true] at hdue
    exact hdue.imp (fun hstop => ⟨hstop, Or.inl hpending⟩) Or.inr
  · have hkj : k ≠ j := Ne.symm hjk
    exact hinv.same rfl rfl rfl rfl rfl (Function.update_of_ne hkj ..) (Function.update_of_ne hkj ..)

lemma inv_check (hinv : Inv k s h) {j : Fin n} (hj : s.loop j = .entered)
    (hstop : s.stop j = false) : Inv k (s.setLoop j .checked) h := by
  by_cases hjk : j = k
  · subst hjk
    refine hinv.keep rfl rfl rfl (fun _ => Or.inl ⟨hstop, Or.inr hj⟩) ?_ hinv.stopSends
      (by simp [State.setLoop, hj, Loop.carried])
    exact fun _ => hinv.flag_clear (Or.inl hj)
  · exact hinv.same rfl rfl rfl rfl rfl rfl (Function.update_of_ne (Ne.symm hjk) ..)

lemma inv_stop (hinv : Inv k s h) (j : Fin n) (sends : ℕ) :
    Inv k { s with
      stop := Function.update s.stop j true
      stopSends := Function.update s.stopSends j sends } h := by
  by_cases hjk : j = k
  · subst hjk
    refine hinv.keep rfl rfl rfl ?_ (by simp) (by simp) rfl
    intro hdue
    exact Or.inr (by simpa [Due] using hdue)
  · have hkj : k ≠ j := Ne.symm hjk
    exact hinv.same rfl rfl rfl (Function.update_of_ne hkj ..) (Function.update_of_ne hkj ..) rfl rfl

lemma inv_stopSend (hinv : Inv k s h) {j : Fin n} (hsends : s.stopSends j ≠ 0) (sends : ℕ) :
    Inv k { s with
      stopSends := Function.update s.stopSends j sends
      pending := Function.update s.pending j true } h := by
  by_cases hjk : j = k
  · subst hjk
    have hstop := hinv.stopSends hsends
    refine hinv.keep rfl rfl rfl ?_ (fun _ _ => hstop) (fun _ => hstop) rfl
    intro hdue
    exact Or.inr (by simpa [Due, hstop] using hdue)
  · have hkj : k ≠ j := Ne.symm hjk
    exact hinv.same rfl rfl rfl rfl (Function.update_of_ne hkj ..) (Function.update_of_ne hkj ..) rfl

theorem inv_move {a : Action n} {es : List (Event n)} (hapart : Apart k s) (hinv : Inv k s h)
    (hs : Move s a s' es) : Inv k s' (observe (record k) h es) := by
  cases hs with
  | publish buf hp => exact inv_publish hinv buf hp
  | unlock msg hp => exact inv_unlock hinv hp
  | store msg j todo hp => exact inv_store hinv hp
  | send msg j todo hp => exact inv_send hinv hapart hp
  | subscribe j hj => exact inv_setLoop hinv .idle _ (by simp) (by simp [hj, Loop.carried])
  | enter j hj hpending => exact inv_enter hinv hj hpending
  | stopSeen j hj => exact inv_setLoop hinv .closing _ (by simp) (by simp [hj, Loop.carried])
  | check j hj hstop => exact inv_check hinv hj hstop
  | load j hj => exact inv_load hinv hapart hj
  | callback j msg hj => exact inv_callback hinv hj
  | leave j hj => exact inv_setLoop hinv .closed _ (by simp) (by simp [hj, Loop.carried])
  | stop j => exact inv_stop hinv j _
  | stopSend j hsends => exact inv_stopSend hinv hsends _

end invariant

/-- Between the store and the send of a `Post` the slot holds the message. -/
def HoldsPosted (s : State n) : Prop :=
  ∀ msg k todo, s.publishing = .sending msg k todo → s.buffer k = some msg

lemma holdsPosted_move {s s' : State n} {a : Action n} {es : List (Event n)} (h : HoldsPosted s)
    (hs : Move s a s' es) : HoldsPosted s' := by
  cases hs with
  | publish buf hp => simp [HoldsPosted, publish]
  | unlock msg hp => simp [HoldsPosted]
  | store msg k todo hp =>
    rintro msg' k' todo' ⟨⟩
    simp [postStore]
  | send msg k todo hp => simp [HoldsPosted, postSend]
  | subscribe => exact h
  | enter => exact h
  | stopSeen => exact h
  | check => exact h
  | load => exact h
  | callback => exact h
  | leave => exact h
  | stop => exact h
  | stopSend => exact h

lemma holdsPosted_run {s : State n} {as : List (Action n)} {es : List (Event n)}
    (hrun : run step start as = some (s, es)) : HoldsPosted s :=
  run_invariant_state step HoldsPosted (fun _ _ _ _ h hs => holdsPosted_move h (step_move hs))
    (by simp [HoldsPosted, start]) hrun

/-- A loop that is about to load `buffer_` between the store and the send of a `Post` passes the
message to its callback, finds the flag set and passes it again. -/
lemma checked_delivers_twice {s : State n} {k : Fin n} {msg : Message} {todo : List (Fin n)}
    (hp : s.publishing = .sending msg k todo) (hbuf : s.buffer k = some msg)
    (hdata : msg.buf.isSome) (hstop : s.stop k = false) (hk : s.loop k = .checked) :
    ∃ s', run step s [.loop k, .loop k, .publisher, .loop k, .loop k, .loop k, .loop k] =
      some (s', [.loaded k msg, .delivered k msg, .loaded k msg, .delivered k msg]) := by
  simp [run, step, hk, hp, hbuf, hstop, hdata, loadBuffer, callback, State.setLoop, postSend,
    runCallback, loadStop, Option.filter]

/-- The same from the start of the callback. -/
lemma overlap_delivers_twice {s : State n} {k : Fin n} (hposted : HoldsPosted s)
    (hoverlap : ¬Apart k s) (hstop : s.stop k = false)
    (hdata : ∀ msg, s.buffer k = some msg → msg.buf.isSome) :
    ∃ bs s' es, run step s bs = some (s', es) ∧ ¬(history k es).delivered.Nodup := by
  simp only [Apart, not_forall] at hoverlap
  obtain ⟨msg, todo, hp, hloop⟩ := hoverlap
  have hbuf := hposted msg k todo hp
  have htwice : ¬(history k [.loaded k msg, .delivered k msg, .loaded k msg,
      .delivered k msg]).delivered.Nodup := by
    simp [history, record]
  by_cases hk : s.loop k = .checked
  · obtain ⟨s', hrun⟩ := checked_delivers_twice hp hbuf (hdata msg hbuf) hstop hk
    exact ⟨_, s', _, hrun, htwice⟩
  · have hentered : s.loop k = .entered := by
      by_contra hne
      exact hloop ⟨hne, hk⟩
    have hcheck : step s (.loop k) = some (s.setLoop k .checked, []) := by
      simp [step, hentered, loadStop, hstop]
    obtain ⟨s', hrun⟩ := checked_delivers_twice (s := s.setLoop k .checked) hp hbuf
      (hdata msg hbuf) hstop (by simp [State.setLoop])
    exact ⟨_, s', _, (run_cons_iff ..).mpr ⟨_, _, _, hcheck, hrun, rfl⟩, htwice⟩

/-- In a run in which the posts to a subscriber and the callbacks of its loop keep apart, the
callback is given a subsequence of the published messages in which no message occurs twice.
From any other state that is reached, with a message that is not null and a subscriber that has
not been stopped, the run can go on so that one message is passed to the callback twice. -/
theorem delivered_once_when_apart (k : Fin n) (as : List (Action n)) (s : State n)
    (es : List (Event n)) (hrun : run step start as = some (s, es)) :
    (StepsMeet step (fun u _ => Apart k u) start as →
      (history k es).delivered.Sublist (history k es).published ∧
        (history k es).delivered.Nodup) ∧
    (¬Apart k s → s.stop k = false → (∀ msg, s.buffer k = some msg → msg.buf.isSome) →
      ∃ bs s' fs, run step s bs = some (s', fs) ∧ ¬(history k fs).delivered.Nodup) := by
  refine ⟨fun hapart => ?_, fun hoverlap hstop hdata =>
    overlap_delivers_twice (holdsPosted_run hrun) hoverlap hstop hdata⟩
  have hinv : Inv k s (history k es) :=
    run_invariant_meeting step (record k) (fun u _ => Apart k u) (Inv k)
      (fun _ _ _ _ _ hu hinv hs => inv_move hu hinv (step_move hs)) hapart (inv_start k) hrun
  obtain ⟨unread, hslot, -⟩ := hinv.slot
  have hdel : (history k es).delivered.Sublist (history k es).loaded :=
    (List.sublist_append_left _ _).trans hinv.delivered_sublist
  have hposted : (history k es).posted.Sublist (history k es).published :=
    (List.sublist_append_left _ _).trans hinv.posted_sublist
  have hsub : (history k es).delivered.Sublist (history k es).published :=
    (hdel.trans hslot.taken_sublist).trans hposted
  exact ⟨hsub, hinv.published_nodup.sublist hsub⟩

/-- One message, posted before the loop runs. -/
theorem delivered_once_one_message :
    ∃ (s : State 1) (es : List (Event 1)),
      run step start [.subscribe 0, .publish (some 1), .publisher, .publisher, .publisher,
        .loop 0, .loop 0, .loop 0, .loop 0] = some (s, es) ∧
      (history 0 es).delivered = [⟨0, some 1⟩] ∧ (history 0 es).delivered.Nodup := by
  refine ⟨_, _, rfl, rfl, ?_⟩
  refine ((delivered_once_when_apart (n := 1) 0 [.subscribe 0, .publish (some 1), .publisher,
    .publisher, .publisher, .loop 0, .loop 0, .loop 0, .loop 0] _ _ rfl).1 ?_).2
  have hquiet : ∀ u : State 1, u.loop 0 ≠ .entered ∧ u.loop 0 ≠ .checked → Apart 0 u :=
    fun u hu _ _ _ => hu
  have hunlocked : ∀ u : State 1, u.publishing = .unlocked → Apart 0 u := by
    intro u hu msg todo hp
    simp [hu] at hp
  refine stepsMeet_cons rfl (hunlocked _ rfl) ?_
  refine stepsMeet_cons rfl (hunlocked _ rfl) ?_
  refine stepsMeet_cons rfl (hquiet _ (by decide)) ?_
  refine stepsMeet_cons rfl (hquiet _ (by decide)) ?_
  refine stepsMeet_cons rfl (hquiet _ (by decide)) ?_
  refine stepsMeet_cons rfl (hunlocked _ rfl) ?_
  refine stepsMeet_cons rfl (hunlocked _ rfl) ?_
  refine stepsMeet_cons rfl (hunlocked _ rfl) ?_
  exact stepsMeet_cons rfl (hunlocked _ rfl) trivial

/-- The loop runs for the first message, loads the second one between its store and its send, and
runs once more. -/
theorem second_message_delivered_twice :
    ∃ (s : State 1) (es : List (Event 1)),
      run step start [.subscribe 0, .publish (some 1), .publisher, .publisher, .publisher,
        .publish (some 2), .loop 0, .publisher, .loop 0, .loop 0, .loop 0, .publisher,
        .loop 0, .loop 0, .loop 0, .loop 0] = some (s, es) ∧
      (history 0 es).delivered = [⟨1, some 2⟩, ⟨1, some 2⟩] :=
  ⟨_, _, rfl, rfl⟩

end CodeC.AsyncSubscribers
