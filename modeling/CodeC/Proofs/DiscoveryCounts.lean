import CodeC.Proofs.DiscoveryComplete
import CodeC.Library.Count

/-!
# How often an address is registered

Every entry of an address in `subs_` stems from the first announcement of the subscriber or
from its answer to the announcement of one publisher of its topic. Entries, announcements on
their way to the publisher and publisher announcements on their way to the subscriber
together never exceed the announcements made.
-/

namespace CodeC.Discovery

open Library

variable {n : ℕ} {A : Type} [DecidableEq A] {net : Network n A}

/-- The publishers of the topic of `q` that have announced themselves. -/
def announced (net : Network n A) (s : State n A) (q : Fin n) : ℕ :=
  countWith (fun x : Fin n × Stage =>
    net.role x.1 = .publisher ∧ net.topic x.1 = net.topic q ∧ x.2 = .running)
    fun r => (r, (s.party r).stage)

/-- The entries of `q` at `p` and the datagrams that may still become one. -/
def entries (net : Network n A) (s : State n A) (p q : Fin n) : ℕ :=
  (s.party p).subs.count (net.addr q) +
    countTo p (fun d => decide (d = announcement net q)) s.inFlight +
    countTo q (fun d => decide (d.topic = pubTopic (net.topic q))) s.inFlight

def Counted (net : Network n A) (s : State n A) : Prop :=
  ∀ p q, net.role p = .publisher → net.role q = .subscriber →
    entries net s p q ≤ (if (s.party q).stage = .running then 1 else 0) + announced net s q

section announced

omit [DecidableEq A] in
lemma announced_update {s : State n A} {p : Fin n} {x : Party A} (q : Fin n) :
    announced net (s.setParty p x) q =
      countWith (fun x : Fin n × Stage =>
        net.role x.1 = .publisher ∧ net.topic x.1 = net.topic q ∧ x.2 = .running)
        (Function.update (fun r => (r, (s.party r).stage)) p (p, x.stage)) := by
  unfold announced
  congr 1
  funext r
  by_cases hr : r = p
  · subst hr
    simp
  · simp [setParty_of_ne s x hr, hr]

omit [DecidableEq A] in
/-- Only a publisher of the topic that starts running changes the number. -/
lemma announced_same {s : State n A} {p : Fin n} {x : Party A} {q : Fin n}
    (h : net.role p = .publisher → net.topic p = net.topic q →
      (x.stage = .running ↔ (s.party p).stage = .running)) :
    announced net (s.setParty p x) q = announced net s q := by
  rw [announced_update]
  unfold announced
  apply countWith_update_same
  constructor
  · rintro ⟨hrole, htopic, hrun⟩
    exact ⟨hrole, htopic, (h hrole htopic).mp hrun⟩
  · rintro ⟨hrole, htopic, hrun⟩
    exact ⟨hrole, htopic, (h hrole htopic).mpr hrun⟩

omit [DecidableEq A] in
lemma announced_succ {s : State n A} {p : Fin n} {x : Party A} {q : Fin n}
    (hrole : net.role p = .publisher) (htopic : net.topic p = net.topic q)
    (hold : (s.party p).stage ≠ .running) (hnew : x.stage = .running) :
    announced net (s.setParty p x) q = announced net s q + 1 := by
  rw [announced_update]
  unfold announced
  apply countWith_update_enter
  · rintro ⟨_, _, hrun⟩
    exact hold hrun
  · exact ⟨hrole, htopic, hnew⟩

omit [DecidableEq A] in
lemma announced_le (net : Network n A) (s : State n A) (q : Fin n) :
    announced net s q ≤ (Finset.univ.filter fun r : Fin n =>
      net.role r = .publisher ∧ net.topic r = net.topic q).card := by
  unfold announced countWith
  apply Finset.card_le_card
  intro r hr
  simp only [Finset.mem_filter, Finset.mem_univ, true_and] at hr ⊢
  exact ⟨hr.1, hr.2.1⟩

end announced

omit [DecidableEq A] in
/-- A subscriber is the only one to announce its address. -/
lemma announcement_inj {p q : Fin n} (hq : net.role q = .subscriber)
    (h : announcement net p = announcement net q) : p = q := by
  have htopic : (announcement net p).topic = subTopic (net.topic q) := by
    rw [h, announcement_subscriber net hq]
  obtain ⟨hp, _, hpayload⟩ := announcement_sub net htopic
  rw [h, announcement_subscriber net hq] at hpayload
  exact net.addr_inj p q hp hq hpayload.symm

/-- A multicast adds at most one datagram that counts for `p` and `q`. -/
lemma entries_send (net : Network n A) (s : State n A) (d : Datagram A) (p q : Fin n) :
    entries net (send s d) p q ≤ entries net s p q +
      (if d = announcement net q then 1 else 0) +
      (if d.topic = pubTopic (net.topic q) then 1 else 0) := by
  have hsub := countTo_multicast_le p (fun d => decide (d = announcement net q)) s.inFlight
    (fun r => (s.party r).stage.isJoined) d
  have hpub := countTo_multicast_le q (fun d => decide (d.topic = pubTopic (net.topic q)))
    s.inFlight (fun r => (s.party r).stage.isJoined) d
  simp only [decide_eq_true_eq] at hsub hpub
  unfold entries send
  simp only
  omega

lemma entries_erase (net : Network n A) (s : State n A) {m : Fin n × Datagram A}
    (hm : m ∈ s.inFlight) (p q : Fin n) :
    entries net { s with inFlight := s.inFlight.erase m } p q +
      (if m.1 = p ∧ m.2 = announcement net q then 1 else 0) +
      (if m.1 = q ∧ m.2.topic = pubTopic (net.topic q) then 1 else 0) = entries net s p q := by
  have hsub := countTo_erase p (fun d => decide (d = announcement net q)) hm
  have hpub := countTo_erase q (fun d => decide (d.topic = pubTopic (net.topic q))) hm
  simp only [decide_eq_true_eq] at hsub hpub
  unfold entries
  simp only
  omega

lemma entries_setParty {s : State n A} {p₀ : Fin n} {x : Party A}
    (hsubs : x.subs = (s.party p₀).subs) (p q : Fin n) :
    entries net (s.setParty p₀ x) p q = entries net s p q := by
  have hp : ((s.setParty p₀ x).party p).subs = (s.party p).subs := by
    by_cases hpp : p = p₀
    · subst hpp
      rw [setParty_self, hsubs]
    · rw [setParty_of_ne s x hpp]
  unfold entries
  rw [hp, setParty_inFlight]

/-- A party that does not start running changes neither side. -/
lemma counted_setParty {s : State n A} (h : Counted net s) {p₀ : Fin n} {x : Party A}
    (hsubs : x.subs = (s.party p₀).subs)
    (hstage : x.stage = .running ↔ (s.party p₀).stage = .running) :
    Counted net (s.setParty p₀ x) := by
  intro p q hp hq
  have hrun : ((s.setParty p₀ x).party q).stage = .running ↔ (s.party q).stage = .running := by
    by_cases hqp : q = p₀
    · subst hqp
      rw [setParty_self]
      exact hstage
    · rw [setParty_of_ne s x hqp]
  rw [entries_setParty hsubs, announced_same (fun _ _ => hstage)]
  simp only [hrun]
  exact h p q hp hq

lemma counted_announce {s : State n A} (h : Counted net s) {p₀ : Fin n} {x : Party A}
    (hstage : (s.party p₀).stage = .registered) (hrun : x.stage = .running)
    (hsubs : x.subs = (s.party p₀).subs) :
    Counted net (send (s.setParty p₀ x) (announcement net p₀)) := by
  intro p q hp hq
  have hold := h p q hp hq
  have hsend := entries_send net (s.setParty p₀ x) (announcement net p₀) p q
  rw [entries_setParty hsubs] at hsend
  change _ ≤ (if ((s.setParty p₀ x).party q).stage = .running then 1 else 0) +
    announced net (s.setParty p₀ x) q
  by_cases hqp : q = p₀
  · subst hqp
    have htopic : (announcement net q).topic ≠ pubTopic (net.topic q) := by
      rw [announcement_subscriber net hq]
      exact subTopic_ne_pubTopic _ _
    rw [announced_same (fun hrole => by rw [hq] at hrole; cases hrole), setParty_self, hrun]
    simp only [hstage, htopic, reduceCtorEq, if_true, if_false] at hold hsend ⊢
    omega
  · have hne : announcement net p₀ ≠ announcement net q :=
      fun heq => hqp (announcement_inj hq heq).symm
    rw [setParty_of_ne s _ hqp]
    by_cases hpub : (announcement net p₀).topic = pubTopic (net.topic q)
    · obtain ⟨hrole, htopic⟩ := announcement_pub net hpub
      rw [announced_succ hrole htopic (by simp [hstage]) hrun]
      simp only [hne, hpub, if_true, if_false] at hsend
      omega
    · have hother : net.role p₀ = .publisher → net.topic p₀ = net.topic q → False := by
        intro hrole htopic
        apply hpub
        rw [announcement_publisher net hrole, htopic]
      rw [announced_same (fun hrole htopic => (hother hrole htopic).elim)]
      simp only [hne, hpub, if_false] at hsend
      omega

/-- The new entry replaces the datagram that has brought it. -/
lemma entries_noted {s : State n A} (hsound : Sound net s) {p₀ : Fin n} {d : Datagram A}
    {x : Party A} (hmem : (p₀, d) ∈ s.inFlight) (htopic : d.topic = subTopic (net.topic p₀))
    (hsubs : x.subs = (s.party p₀).subs ++ [d.payload]) (p : Fin n) {q : Fin n}
    (hq : net.role q = .subscriber) :
    entries net (State.setParty { s with inFlight := s.inFlight.erase (p₀, d) } p₀ x) p q ≤
      entries net s p q := by
  have herase := entries_erase net s hmem p q
  by_cases hpp : p = p₀
  · subst hpp
    have hcount : x.subs.count (net.addr q) ≤ (s.party p).subs.count (net.addr q) +
        (if d = announcement net q then 1 else 0) := by
      rw [hsubs, List.count_append, List.count_singleton]
      by_cases haddr : d.payload = net.addr q
      · obtain ⟨r, hr⟩ := hsound.wire (p, d) hmem
        change d = announcement net r at hr
        subst hr
        obtain ⟨hrole, _, hpayload⟩ := announcement_sub net htopic
        have hrq := net.addr_inj r q hrole hq (hpayload.symm.trans haddr)
        rw [if_pos (by simp [haddr]), if_pos (by rw [hrq])]
      · simp [haddr]
    unfold entries at herase ⊢
    rw [setParty_inFlight, setParty_self]
    simp only [true_and] at herase ⊢
    omega
  · unfold entries at herase ⊢
    rw [setParty_inFlight, setParty_of_ne _ _ hpp]
    omega

lemma counted_noted {s : State n A} (h : Counted net s) (hsound : Sound net s) {p₀ : Fin n}
    {d : Datagram A} {x : Party A} (hmem : (p₀, d) ∈ s.inFlight)
    (htopic : d.topic = subTopic (net.topic p₀)) (hstage : x.stage = (s.party p₀).stage)
    (hsubs : x.subs = (s.party p₀).subs ++ [d.payload]) :
    Counted net (State.setParty { s with inFlight := s.inFlight.erase (p₀, d) } p₀ x) := by
  intro p q hp hq
  have hentries := entries_noted hsound hmem htopic hsubs p hq
  have hq' : ((State.setParty { s with inFlight := s.inFlight.erase (p₀, d) } p₀ x).party q).stage =
      (s.party q).stage := by
    by_cases hqp : q = p₀
    · subst hqp
      rw [setParty_self]
      exact hstage
    · rw [setParty_of_ne _ _ hqp]
  rw [hq', announced_same (fun _ _ => by rw [hstage])]
  exact hentries.trans (h p q hp hq)

lemma counted_answered {s : State n A} (h : Counted net s) {q₀ : Fin n} {d : Datagram A}
    (hmem : (q₀, d) ∈ s.inFlight) (hrole : net.role q₀ = .subscriber)
    (htopic : d.topic = pubTopic (net.topic q₀)) :
    Counted net
      (send { s with inFlight := s.inFlight.erase (q₀, d) } (announcement net q₀)) := by
  intro p q hp hq
  have hold := h p q hp hq
  have herase := entries_erase net s hmem p q
  have hsend := entries_send net { s with inFlight := s.inFlight.erase (q₀, d) }
    (announcement net q₀) p q
  have hpub : (announcement net q₀).topic ≠ pubTopic (net.topic q) := by
    rw [announcement_subscriber net hrole]
    exact subTopic_ne_pubTopic _ _
  change _ ≤ (if (s.party q).stage = .running then 1 else 0) + announced net s q
  simp only [hpub, if_false] at hsend herase
  by_cases hqq : q₀ = q
  · subst hqq
    simp only [htopic, and_self, if_true] at hsend herase
    omega
  · have hne : announcement net q₀ ≠ announcement net q :=
      fun heq => hqq (announcement_inj hq heq)
    simp only [hne, if_false] at hsend
    omega

lemma counted_move {s s' : State n A} (h : Counted net s) (hsound : Sound net s)
    (hm : Move net s s') : Counted net s' := by
  cases hm with
  | join p hstage => exact counted_setParty h rfl (by simp [hstage])
  | register p hstage => exact counted_setParty h rfl (by simp [hstage])
  | announce p hstage => exact counted_announce h hstage rfl rfl
  | dropped r d hmem hdrop =>
    intro p q hp hq
    have herase := entries_erase net s hmem p q
    have hold := h p q hp hq
    change _ ≤ (if (s.party q).stage = .running then 1 else 0) + announced net s q
    omega
  | noted p d hmem hrole htopic => exact counted_noted h hsound hmem htopic rfl rfl
  | answered q d hmem hrole htopic => exact counted_answered h hmem hrole htopic

theorem counted_run {as : List (Action n A)} {t : State n A} {es : List Empty}
    (hrun : run (silent (step net)) start as = some (t, es)) : Counted net t := by
  have h : Sound net t ∧ Counted net t := by
    apply move_invariant net (fun s => Sound net s ∧ Counted net s) ?_ ?_ hrun
    · refine ⟨⟨by simp [start], by simp [start]⟩, ?_⟩
      intro p q _ _
      simp [entries, start, countTo]
    · rintro s s' _ ⟨hsound, hcounted⟩ hm
      exact ⟨sound_move hsound hm, counted_move hcounted hsound hm⟩
  exact h.2

/-- An address is in `subs_` at most once for the subscriber's own announcement and once for
each publisher of its topic, and a published message sends it that many notifications. -/
theorem subs_count_le_publishers (net : Network n A) (as : List (Action n A)) (t : State n A)
    (es : List Empty) (hrun : run (silent (step net)) start as = some (t, es)) (p q : Fin n)
    (hp : net.role p = .publisher) (hq : net.role q = .subscriber) :
    (t.party p).subs.count (net.addr q) ≤ 1 + (Finset.univ.filter fun r : Fin n =>
      net.role r = .publisher ∧ net.topic r = net.topic q).card ∧
    (publish (t.party p)).count (net.addr q, kNotifyRead) =
      (t.party p).subs.count (net.addr q) := by
  constructor
  · have hcounted := counted_run hrun p q hp hq
    have hannounced := announced_le net t q
    have hrunning : (if (t.party q).stage = .running then 1 else 0) ≤ 1 := by
      split
      · exact le_refl 1
      · exact Nat.zero_le 1
    unfold entries at hcounted
    omega
  · have hinj : Function.Injective fun sub : A => (sub, kNotifyRead) := by
      intro a b hab
      exact (Prod.mk.inj hab).1
    exact List.count_map_of_injective _ _ hinj (net.addr q)

/-- Both parties register before either announces itself. -/
def crossingRun (p q : Fin n) : List (Action n ℕ) :=
  [.join p, .join q, .register p, .register q, .announce p, .announce q,
    .deliver q ⟨"message/t/pub", 0⟩, .deliver p ⟨"message/t/sub", 1⟩,
    .deliver p ⟨"message/t/sub", 1⟩]

theorem crossing_announcements_register_twice :
    ∃ t : State 2 ℕ, run (silent (step pairNetwork)) start (crossingRun 0 1) = some (t, []) ∧
      (t.party 0).subs = [1, 1] ∧ ¬(t.party 0).subs.Nodup ∧
      publish (t.party 0) = [(1, kNotifyRead), (1, kNotifyRead)] :=
  ⟨_, rfl, rfl, by decide, rfl⟩

theorem subs_count_le_publishers_crossing :
    ∃ t : State 2 ℕ, run (silent (step pairNetwork)) start (crossingRun 0 1) = some (t, []) ∧
      (t.party 0).subs.count 1 = 2 ∧
      (t.party 0).subs.count (pairNetwork.addr 1) ≤ 1 + (Finset.univ.filter fun r : Fin 2 =>
        pairNetwork.role r = .publisher ∧ pairNetwork.topic r = pairNetwork.topic 1).card :=
  ⟨_, rfl, rfl, (subs_count_le_publishers pairNetwork (crossingRun 0 1) _ [] rfl 0 1 rfl rfl).1⟩

end CodeC.Discovery
