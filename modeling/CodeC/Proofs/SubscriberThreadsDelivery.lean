import CodeC.Library.Slot
import CodeC.SubscriberThreads

/-!
# What the subscribers of `20221206-pubsub` are given

A subscriber is given a subsequence of the published buffers, in order and without repetition,
and it never sleeps unnotified on the last one.
-/

namespace CodeC.SubscriberThreads
open Library

variable {n : ℕ}

/-- What has happened so far from the point of view of subscriber `k`: all buffers published,
those published since `k` registered, those its thread took and those passed to its callback. -/
structure History where
  registered : Bool
  published : List Buffer
  sent : List Buffer
  taken : List Buffer
  delivered : List Buffer

def record (k : Fin n) (h : History) : Event n → History
  | .published buf =>
    { h with
      published := h.published ++ [buf]
      sent := if h.registered then h.sent ++ [buf] else h.sent }
  | .subscribed j => if j = k then { h with registered := true } else h
  | .taken j buf => if j = k then { h with taken := h.taken ++ [buf] } else h
  | .delivered j buf => if j = k then { h with delivered := h.delivered ++ [buf] } else h

def history (k : Fin n) (es : List (Event n)) : History :=
  observe (record k) ⟨false, [], [], [], []⟩ es

/-- The buffer that a thread has taken and not yet passed on. -/
def Thread.carried : Thread → List Buffer
  | .took buf => buf.toList
  | _ => []

/-- What holds of subscriber `k` in every reachable state. `posted` are the buffers that `Publish`
stored for `k`, which are all those since its registration as long as `k` is in `subscribers_`. -/
structure Inv (k : Fin n) (s : State n) (h : History) : Prop where
  published_lt : ∀ buf ∈ h.published, buf.serial < s.allocated
  published_nodup : h.published.Nodup
  sent_sublist : h.sent.Sublist h.published
  registered_iff : h.registered = true ↔ s.thread k ≠ .unstarted
  unsent : s.thread k = .unstarted → h.sent = []
  started : s.subscribers k = true → s.thread k ≠ .unstarted
  slot : ∃ posted, Conflates posted h.taken (s.buffer k) ∧ posted.Sublist h.sent ∧
    (s.subscribers k = true → posted = h.sent)
  delivered_sublist : (h.delivered ++ (s.thread k).carried).Sublist h.taken
  asleep : s.thread k = .waiting false → s.buffer k = none
  stopped : s.thread k ≠ .unstarted → s.stop k = false → s.subscribers k = true

lemma inv_start (k : Fin n) : Inv k start ⟨false, [], [], [], []⟩ :=
  ⟨by simp, List.nodup_nil, List.Sublist.refl _, by simp [start], by simp, by simp [start],
    ⟨[], .init, List.Sublist.refl _, fun _ => rfl⟩, List.Sublist.refl _, by simp [start],
    by simp [start]⟩

/-- The step does not concern subscriber `k`. -/
lemma Inv.same {k : Fin n} {s s' : State n} {h : History} (hinv : Inv k s h)
    (halloc : s'.allocated = s.allocated) (hsubs : s'.subscribers k = s.subscribers k)
    (hbuf : s'.buffer k = s.buffer k) (hstop : s'.stop k = s.stop k)
    (hthread : s'.thread k = s.thread k) : Inv k s' h := by
  obtain ⟨hlt, hnodup, hsent, hreg, hunsent, hstarted, hslot, hdel, hasleep, hstopped⟩ := hinv
  refine ⟨?_, hnodup, hsent, ?_, ?_, ?_, ?_, ?_, ?_, ?_⟩
  · rwa [halloc]
  · rwa [hthread]
  · rwa [hthread]
  · rwa [hsubs, hthread]
  · rwa [hbuf, hsubs]
  · rwa [hthread]
  · rwa [hthread, hbuf]
  · rwa [hthread, hstop, hsubs]

@[simp] lemma carried_notify (th : Thread) : th.notify.carried = th.carried := by
  cases th <;> rfl

lemma notify_ne_asleep (th : Thread) : th.notify ≠ .waiting false := by
  cases th <;> simp [Thread.notify]

@[simp] lemma notify_eq_unstarted (th : Thread) : th.notify = .unstarted ↔ th = .unstarted := by
  cases th <;> simp [Thread.notify]

lemma inv_publish {k : Fin n} {s : State n} {h : History} (hinv : Inv k s h) (data : Option ℕ)
    (size : ℕ) :
    Inv k (publish s data size).1 (observe (record k) h (publish s data size).2) := by
  obtain ⟨posted, hslot, hposted, heq⟩ := hinv.slot
  simp only [publish, observe_cons, observe_nil, record]
  refine ⟨numbered_lt_concat hinv.published_lt rfl,
    numbered_nodup_concat hinv.published_lt hinv.published_nodup rfl, ?_, ?_, ?_, ?_, ?_, ?_, ?_, ?_⟩
  · cases h.registered
    · exact hinv.sent_sublist.trans (List.sublist_append_left _ _)
    · exact hinv.sent_sublist.append (List.Sublist.refl _)
  · simpa using hinv.registered_iff
  · intro hun
    have hun' : s.thread k = .unstarted := (notify_eq_unstarted _).mp hun
    have hreg : h.registered ≠ true := fun hreg => hinv.registered_iff.mp hreg hun'
    rw [if_neg hreg, hinv.unsent hun']
  · simpa using hinv.started
  · cases hsubs : s.subscribers k with
    | false =>
      refine ⟨posted, by simpa [hsubs] using hslot, ?_, by simp⟩
      cases h.registered
      · exact hposted
      · exact hposted.trans (List.sublist_append_left _ _)
    | true =>
      -- the slot gets the new buffer, whatever it held before
      have hreg : h.registered = true := hinv.registered_iff.mpr (hinv.started hsubs)
      obtain rfl := heq hsubs
      rw [if_pos hreg]
      exact ⟨h.sent ++ [_], by simpa [hsubs] using hslot.put _, List.Sublist.refl _, fun _ => rfl⟩
  · simpa using hinv.delivered_sublist
  · intro hasleep
    exact absurd hasleep (notify_ne_asleep _)
  · intro hne
    exact hinv.stopped (by simpa using hne)

lemma inv_subscribe {k j : Fin n} {s : State n} {h : History} (hinv : Inv k s h)
    (hj : s.thread j = .unstarted) :
    Inv k (subscribe s j).1 (observe (record k) h (subscribe s j).2) := by
  simp only [subscribe, observe_cons, observe_nil, record]
  by_cases hjk : j = k
  · subst hjk
    have hsent := hinv.unsent hj
    obtain ⟨posted, hslot, hposted, -⟩ := hinv.slot
    have hnil : posted = [] := List.sublist_nil.mp (hsent ▸ hposted)
    have hdel := hinv.delivered_sublist
    rw [if_pos rfl]
    refine ⟨hinv.published_lt, hinv.published_nodup, hinv.sent_sublist, ?_, ?_, ?_,
      ⟨posted, hslot, hposted, fun _ => by rw [hnil, hsent]⟩, ?_, ?_, ?_⟩ <;>
      simp only [Function.update_self]
    · simp
    · simp
    · simp
    · simpa [hj, Thread.carried] using hdel
    · simp
    · simp
  · have hkj : k ≠ j := Ne.symm hjk
    rw [if_neg hjk]
    exact hinv.same rfl (Function.update_of_ne hkj ..) rfl rfl (Function.update_of_ne hkj ..)

lemma observe_taken (k : Fin n) (h : History) (buf : Option Buffer) :
    observe (record k) h (buf.toList.map (.taken k)) = { h with taken := h.taken ++ buf.toList } := by
  cases buf <;> simp [record]

lemma observe_taken_ne {k j : Fin n} (hjk : j ≠ k) (h : History) (buf : Option Buffer) :
    observe (record k) h (buf.toList.map (.taken j)) = h := by
  cases buf <;> simp [record, hjk]

lemma inv_swapBuffer {k j : Fin n} {s : State n} {h : History} (hinv : Inv k s h)
    (hcarried : (s.thread j).carried = []) (hj : s.thread j ≠ .unstarted) :
    Inv k (swapBuffer s j).1 (observe (record k) h (swapBuffer s j).2) := by
  by_cases hjk : j = k
  · subst hjk
    have hdel := hinv.delivered_sublist
    rw [hcarried, List.append_nil] at hdel
    obtain ⟨posted, hslot, hposted, heq⟩ := hinv.slot
    simp only [swapBuffer, observe_taken]
    refine ⟨hinv.published_lt, hinv.published_nodup, hinv.sent_sublist, ?_, ?_, ?_,
      ⟨posted, ?_, hposted, heq⟩, ?_, ?_, ?_⟩ <;> simp only [Function.update_self]
    · simpa using hinv.registered_iff.mpr hj
    · simp
    · simp
    · exact hslot.take
    · exact hdel.append (List.Sublist.refl _)
    · simp
    · exact fun _ => hinv.stopped hj
  · have hkj : k ≠ j := Ne.symm hjk
    simp only [swapBuffer, observe_taken_ne hjk]
    exact hinv.same rfl rfl (Function.update_of_ne hkj ..) rfl (Function.update_of_ne hkj ..)

/-- The thread of `j` moves and takes nothing. -/
lemma inv_setThread {k j : Fin n} {s : State n} {h : History} (hinv : Inv k s h) (th : Thread)
    (hth : th ≠ .unstarted) (hcarried : th.carried = [])
    (hasleep : th = .waiting false → s.buffer j = none) (hj : s.thread j ≠ .unstarted) :
    Inv k { s with thread := Function.update s.thread j th } h := by
  by_cases hjk : j = k
  · subst hjk
    have hdel := (List.sublist_append_left _ _).trans hinv.delivered_sublist
    refine ⟨hinv.published_lt, hinv.published_nodup, hinv.sent_sublist, ?_, ?_, ?_,
      hinv.slot, ?_, ?_, ?_⟩ <;> simp only [Function.update_self]
    · exact iff_of_true (hinv.registered_iff.mpr hj) hth
    · exact fun hun => absurd hun hth
    · exact fun _ => hth
    · rwa [hcarried, List.append_nil]
    · exact hasleep
    · exact fun _ => hinv.stopped hj
  · exact hinv.same rfl rfl rfl rfl (Function.update_of_ne (Ne.symm hjk) ..)

lemma inv_enter {k j : Fin n} {s : State n} {h : History} (hinv : Inv k s h)
    (hj : s.thread j = .looping) :
    Inv k (enter s j).1 (observe (record k) h (enter s j).2) := by
  unfold enter
  by_cases hstop : s.stop j = true
  · rw [if_pos hstop]
    exact inv_setThread hinv .returned (by simp) rfl (by simp) (by simp [hj])
  · rw [if_neg hstop]
    by_cases hbuf : s.buffer j = none
    · rw [if_pos hbuf]
      exact inv_setThread hinv (.waiting false) (by simp) rfl (fun _ => hbuf) (by simp [hj])
    · rw [if_neg hbuf]
      exact inv_swapBuffer hinv (by simp [hj, Thread.carried]) (by simp [hj])

lemma inv_callback {k j : Fin n} {s : State n} {h : History} (hinv : Inv k s h)
    {buf : Option Buffer} (hj : s.thread j = .took buf) :
    Inv k (callback s j buf).1 (observe (record k) h (callback s j buf).2) := by
  by_cases hjk : j = k
  · subst hjk
    have hdel := hinv.delivered_sublist
    rw [hj] at hdel
    have hobs : observe (record j) h (callback s j buf).2 =
        { h with delivered := h.delivered ++ (buf.filter fun b => b.data.isSome).toList } := by
      unfold callback
      cases buf.filter fun b => b.data.isSome <;> simp [record]
    rw [hobs]
    have hreg := hinv.registered_iff.mpr (by simp [hj])
    refine ⟨hinv.published_lt, hinv.published_nodup, hinv.sent_sublist, ?_, ?_, ?_,
      hinv.slot, ?_, ?_, ?_⟩ <;> simp only [callback, Function.update_self]
    · simpa using hreg
    · simp
    · simp
    · have hfilter : (buf.filter fun b => b.data.isSome).toList.Sublist buf.toList := by
        rw [Option.toList_filter]
        exact List.filter_sublist
      simpa [Thread.carried] using ((List.Sublist.refl _).append hfilter).trans hdel
    · simp
    · exact fun _ => hinv.stopped (by simp [hj])
  · have hobs : observe (record k) h (callback s j buf).2 = h := by
      unfold callback
      cases buf.filter fun b => b.data.isSome <;> simp [record, hjk]
    rw [hobs]
    exact hinv.same rfl rfl rfl rfl (Function.update_of_ne (Ne.symm hjk) ..)

lemma inv_stop {k j : Fin n} {s : State n} {h : History} (hinv : Inv k s h) :
    Inv k (stop s j) h := by
  by_cases hjk : j = k
  · subst hjk
    obtain ⟨posted, hslot, hposted, -⟩ := hinv.slot
    exact ⟨hinv.published_lt, hinv.published_nodup, hinv.sent_sublist, hinv.registered_iff,
      hinv.unsent, by simp [stop], ⟨posted, hslot, hposted, by simp [stop]⟩,
      hinv.delivered_sublist, hinv.asleep, by simp [stop]⟩
  · have hkj : k ≠ j := Ne.symm hjk
    exact hinv.same rfl (Function.update_of_ne hkj ..) rfl (Function.update_of_ne hkj ..) rfl

lemma inv_stopDelegate {k : Fin n} {s : State n} {h : History} (hinv : Inv k s h) :
    Inv k (stopDelegate s) h := by
  refine { hinv with stopped := ?_ }
  intro hne hstop
  simp only [stopDelegate, Bool.or_eq_false_iff] at hstop
  exact hinv.stopped hne hstop.2

lemma inv_notifyAll {k : Fin n} {s : State n} {h : History} (hinv : Inv k s h) (notifies : ℕ) :
    Inv k { s with thread := fun j => (s.thread j).notify, notifies := notifies } h := by
  refine ⟨hinv.published_lt, hinv.published_nodup, hinv.sent_sublist, ?_, ?_, ?_, hinv.slot, ?_,
    ?_, ?_⟩
  · simpa using hinv.registered_iff
  · simpa using hinv.unsent
  · simpa using hinv.started
  · simpa using hinv.delivered_sublist
  · intro hasleep
    exact absurd hasleep (notify_ne_asleep _)
  · simpa using hinv.stopped

theorem inv_step {k : Fin n} {s s' : State n} {h : History} {a : Action n} {es : List (Event n)}
    (hinv : Inv k s h) (hs : step s a = some (s', es)) : Inv k s' (observe (record k) h es) := by
  cases a with
  | publish data size =>
    obtain ⟨rfl, rfl⟩ := Prod.mk.inj (Option.some.inj hs)
    exact inv_publish hinv data size
  | subscribe j =>
    cases hj : s.thread j <;> simp only [step, hj, reduceCtorEq] at hs
    obtain ⟨rfl, rfl⟩ := Prod.mk.inj (Option.some.inj hs)
    exact inv_subscribe hinv hj
  | enter j =>
    cases hj : s.thread j <;> simp only [step, hj, reduceCtorEq] at hs
    have hinv' := inv_enter hinv hj
    rw [Option.some.inj hs] at hinv'
    exact hinv'
  | wake j =>
    cases hj : s.thread j <;> simp only [step, hj, reduceCtorEq] at hs
    obtain ⟨rfl, rfl⟩ := Prod.mk.inj (Option.some.inj hs)
    exact inv_swapBuffer hinv (by simp [hj, Thread.carried]) (by simp [hj])
  | callback j =>
    cases hj : s.thread j <;> simp only [step, hj, reduceCtorEq] at hs
    obtain ⟨rfl, rfl⟩ := Prod.mk.inj (Option.some.inj hs)
    exact inv_callback hinv hj
  | stop j =>
    cases hj : s.thread j <;> simp only [step, hj, reduceCtorEq] at hs <;>
    · obtain ⟨rfl, rfl⟩ := Prod.mk.inj (Option.some.inj hs)
      exact inv_stop hinv
  | stopDelegate =>
    obtain ⟨rfl, rfl⟩ := Prod.mk.inj (Option.some.inj hs)
    exact inv_stopDelegate hinv
  | notifyAll =>
    simp only [step] at hs
    split_ifs at hs
    obtain ⟨rfl, rfl⟩ := Prod.mk.inj (Option.some.inj hs)
    exact inv_notifyAll hinv _

theorem inv_run {k : Fin n} {s : State n} {as : List (Action n)} {es : List (Event n)}
    (hrun : run step start as = some (s, es)) : Inv k s (history k es) :=
  run_invariant step (record k) (Inv k) (fun _ _ _ _ _ => inv_step) (inv_start k) hrun

/-- The callback of a subscriber is given a subsequence of the published buffers in which no
buffer occurs twice. When a subscriber that has not been stopped is in `cond_.wait` and has not
been notified, its thread has taken the last buffer published since it registered. -/
theorem delivered_in_order_last_taken (k : Fin n) (as : List (Action n)) (s : State n)
    (es : List (Event n)) (hrun : run step start as = some (s, es)) :
    (history k es).delivered.Sublist (history k es).published ∧
      (history k es).delivered.Nodup ∧
      (s.thread k = .waiting false → s.stop k = false →
        ∀ buf, (history k es).sent.getLast? = some buf → buf ∈ (history k es).taken) := by
  have hinv : Inv k s (history k es) := inv_run hrun
  obtain ⟨posted, hslot, hposted, heq⟩ := hinv.slot
  have hdel : (history k es).delivered.Sublist (history k es).taken :=
    (List.sublist_append_left _ _).trans hinv.delivered_sublist
  have hsub : (history k es).delivered.Sublist (history k es).published :=
    ((hdel.trans hslot.taken_sublist).trans hposted).trans hinv.sent_sublist
  refine ⟨hsub, hinv.published_nodup.sublist hsub, ?_⟩
  intro hwait hstop buf hlast
  have hsubscribed := hinv.stopped (by simp [hwait]) hstop
  rw [hinv.asleep hwait, heq hsubscribed] at hslot
  exact hslot.last_mem_taken hlast

/-- A subscriber that has been given its first buffer and sleeps again. -/
theorem delivered_in_order_one_buffer :
    ∃ (s : State 1) (es : List (Event 1)),
      run step start [.subscribe 0, .enter 0, .publish (some 1) 4, .wake 0, .callback 0, .enter 0] =
        some (s, es) ∧
      s.thread 0 = .waiting false ∧ (history 0 es).delivered = [⟨0, some 1, 4⟩] ∧
      ⟨0, some 1, 4⟩ ∈ (history 0 es).taken := by
  refine ⟨_, _, rfl, rfl, rfl, ?_⟩
  exact (delivered_in_order_last_taken (n := 1) 0 [.subscribe 0, .enter 0, .publish (some 1) 4,
    .wake 0, .callback 0, .enter 0] _ _ rfl).2.2 rfl rfl _ rfl

end CodeC.SubscriberThreads
