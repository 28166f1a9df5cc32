import CodeC.Proofs.DiscoveryMoves

/-!
# Discovery finds every subscriber of the topic

Once a publisher has registered and a subscriber of its topic is running, the publisher has
the address, or a datagram that will bring it is on its way, or the announcement that will
make the subscriber send it is still to come.
-/

namespace CodeC.Discovery

open Library

variable {n : ℕ} {A : Type} [DecidableEq A] {net : Network n A}

/-- Only announcements are in flight, and `subs_` has only subscribers of the own topic. -/
structure Sound (net : Network n A) (s : State n A) : Prop where
  wire : ∀ m ∈ s.inFlight, ∃ q, m.2 = announcement net q
  known : ∀ p, net.role p = .publisher → ∀ a ∈ (s.party p).subs,
    ∃ q, net.role q = .subscriber ∧ net.topic q = net.topic p ∧ net.addr q = a

omit [DecidableEq A] in
lemma sound_setParty {s : State n A} (h : Sound net s) {p : Fin n} {x : Party A}
    (hsubs : x.subs = (s.party p).subs) : Sound net (s.setParty p x) := by
  refine ⟨h.wire, ?_⟩
  intro p' hrole a ha
  by_cases hp : p' = p
  · subst hp
    rw [setParty_self, hsubs] at ha
    exact h.known p' hrole a ha
  · rw [setParty_of_ne s x hp] at ha
    exact h.known p' hrole a ha

omit [DecidableEq A] in
lemma sound_send {s : State n A} (h : Sound net s) (p : Fin n) :
    Sound net (send s (announcement net p)) := by
  refine ⟨?_, h.known⟩
  intro m hm
  rcases mem_send.mp hm with hold | ⟨_, hnew⟩
  · exact h.wire m hold
  · exact ⟨p, hnew⟩

lemma sound_erase {s : State n A} (h : Sound net s) (m : Fin n × Datagram A) :
    Sound net { s with inFlight := s.inFlight.erase m } :=
  ⟨fun k hk => h.wire k (List.mem_of_mem_erase hk), h.known⟩

lemma sound_move {s s' : State n A} (h : Sound net s) (hm : Move net s s') : Sound net s' := by
  cases hm with
  | join p hstage => exact sound_setParty h rfl
  | register p hstage => exact sound_setParty h rfl
  | announce p hstage =>
    apply sound_send
    exact sound_setParty h rfl
  | dropped r d hmem hdrop => exact sound_erase h (r, d)
  | answered q d hmem hrole htopic => exact sound_send (sound_erase h (q, d)) q
  | noted p d hmem hrole htopic =>
    refine ⟨(sound_erase h (p, d)).wire, ?_⟩
    intro p' hrole' a ha
    by_cases hp : p' = p
    · subst hp
      rw [setParty_self] at ha
      rcases List.mem_append.mp ha with hold | hnew
      · exact h.known p' hrole' a hold
      · obtain ⟨q, hq⟩ := h.wire (p', d) hmem
        change d = announcement net q at hq
        subst hq
        obtain ⟨hsub, htq, hpayload⟩ := announcement_sub net htopic
        refine ⟨q, hsub, htq, ?_⟩
        rw [← hpayload]
        exact (List.mem_singleton.mp hnew).symm
    · rw [setParty_of_ne _ _ hp] at ha
      exact h.known p' hrole' a ha

/-- How a publisher `p` and a subscriber `q` of one topic have met or will meet. -/
def Meets (net : Network n A) (s : State n A) (p q : Fin n) : Prop :=
  net.addr q ∈ (s.party p).subs ∨ (p, announcement net q) ∈ s.inFlight ∨
    (s.party p).stage = .registered ∨ (q, announcement net p) ∈ s.inFlight

def Complete (net : Network n A) (s : State n A) : Prop :=
  ∀ p q, net.role p = .publisher → net.role q = .subscriber → net.topic q = net.topic p →
    (s.party p).stage.isRegistered = true → (s.party q).stage = .running → Meets net s p q

omit [DecidableEq A] in
/-- Parties that did not move still meet, as long as nothing is lost from what is in flight. -/
lemma meets_mono {s s' : State n A} {p q : Fin n} (h : Meets net s p q)
    (hsubs : (s.party p).subs ⊆ (s'.party p).subs)
    (hstage : (s'.party p).stage = (s.party p).stage)
    (hflight : ∀ m ∈ s.inFlight, m ∈ s'.inFlight) : Meets net s' p q := by
  rcases h with hknown | hsub | hreg | hpub
  · exact Or.inl (hsubs hknown)
  · exact Or.inr (Or.inl (hflight _ hsub))
  · exact Or.inr (Or.inr (Or.inl (hstage.trans hreg)))
  · exact Or.inr (Or.inr (Or.inr (hflight _ hpub)))

omit [DecidableEq A] in
lemma complete_announce {s : State n A} (h : Complete net s) (p₀ : Fin n) {x : Party A} :
    Complete net (send (s.setParty p₀ x) (announcement net p₀)) := by
  intro p q hp hq htopic hreg hrun
  rw [send_party] at hreg hrun
  by_cases hpp : p = p₀
  · subst hpp
    right; right; right
    apply mem_send.mpr
    right
    exact ⟨by rw [hrun]; rfl, rfl⟩
  · by_cases hqp : q = p₀
    · subst hqp
      right; left
      apply mem_send.mpr
      right
      exact ⟨isJoined_of_isRegistered hreg, rfl⟩
    · rw [setParty_of_ne s _ hpp] at hreg
      rw [setParty_of_ne s _ hqp] at hrun
      apply meets_mono (h p q hp hq htopic hreg hrun)
      · rw [send_party, setParty_of_ne s _ hpp]
        exact List.Subset.refl _
      · rw [send_party, setParty_of_ne s _ hpp]
      · intro m hm
        exact mem_send.mpr (Or.inl hm)

lemma complete_dropped {s : State n A} (h : Complete net s) {r : Fin n} {d : Datagram A}
    (hdrop : (s.party r).stage.isRegistered = true → d.topic ≠ recvTopic net r) :
    Complete net { s with inFlight := s.inFlight.erase (r, d) } := by
  intro p q hp hq htopic hreg hrun
  rcases h p q hp hq htopic hreg hrun with hknown | hsub | hstage | hpub
  · exact Or.inl hknown
  · rcases mem_erase_or_eq (m := (r, d)) hsub with heq | hstill
    · cases heq
      rw [recvTopic_publisher net hp, announcement_subscriber net hq, htopic] at hdrop
      exact absurd rfl (hdrop hreg)
    · exact Or.inr (Or.inl hstill)
  · exact Or.inr (Or.inr (Or.inl hstage))
  · rcases mem_erase_or_eq (m := (r, d)) hpub with heq | hstill
    · cases heq
      rw [recvTopic_subscriber net hq, announcement_publisher net hp, htopic] at hdrop
      exact absurd rfl (hdrop (by rw [hrun]; rfl))
    · exact Or.inr (Or.inr (Or.inr hstill))

lemma complete_noted {s : State n A} (h : Complete net s) {p₀ : Fin n} {d : Datagram A}
    {x : Party A} (hrole : net.role p₀ = .publisher) (hstage : x.stage = (s.party p₀).stage)
    (hsubs : x.subs = (s.party p₀).subs ++ [d.payload]) :
    Complete net (State.setParty { s with inFlight := s.inFlight.erase (p₀, d) } p₀ x) := by
  intro p q hp hq htopic hreg hrun
  have hqp : q ≠ p₀ := by
    rintro rfl
    rw [hrole] at hq
    cases hq
  rw [setParty_of_ne _ _ hqp] at hrun
  by_cases hpp : p = p₀
  · subst hpp
    rw [setParty_self, hstage] at hreg
    unfold Meets
    rw [setParty_self, setParty_inFlight, hstage, hsubs]
    rcases h p q hp hq htopic hreg hrun with hknown | hsub | hregistered | hpub
    · exact Or.inl (List.mem_append_left _ hknown)
    · rcases mem_erase_or_eq (m := (p, d)) hsub with heq | hstill
      · cases heq
        rw [announcement_subscriber net hq]
        exact Or.inl (by simp)
      · exact Or.inr (Or.inl hstill)
    · exact Or.inr (Or.inr (Or.inl hregistered))
    · rcases mem_erase_or_eq (m := (p, d)) hpub with heq | hstill
      · cases heq
        exact absurd rfl hqp
      · exact Or.inr (Or.inr (Or.inr hstill))
  · rw [setParty_of_ne _ _ hpp] at hreg
    have hkept : ∀ m ∈ s.inFlight, m.1 ≠ p₀ → m ∈ s.inFlight.erase (p₀, d) := by
      intro m hm hne
      rcases mem_erase_or_eq (m := (p₀, d)) hm with heq | hstill
      · rw [heq] at hne
        exact absurd rfl hne
      · exact hstill
    unfold Meets
    rw [setParty_of_ne _ _ hpp, setParty_inFlight]
    rcases h p q hp hq htopic hreg hrun with hknown | hsub | hregistered | hpub
    · exact Or.inl hknown
    · exact Or.inr (Or.inl (hkept _ hsub hpp))
    · exact Or.inr (Or.inr (Or.inl hregistered))
    · exact Or.inr (Or.inr (Or.inr (hkept _ hpub hqp)))

lemma complete_answered {s : State n A} (h : Complete net s) {q₀ : Fin n} {d : Datagram A}
    (hrole : net.role q₀ = .subscriber) :
    Complete net
      (send { s with inFlight := s.inFlight.erase (q₀, d) } (announcement net q₀)) := by
  intro p q hp hq htopic hreg hrun
  have hpq : p ≠ q₀ := by
    rintro rfl
    rw [hrole] at hp
    cases hp
  rcases h p q hp hq htopic hreg hrun with hknown | hsub | hregistered | hpub
  · exact Or.inl hknown
  · rcases mem_erase_or_eq (m := (q₀, d)) hsub with heq | hstill
    · cases heq
      exact absurd rfl hpq
    · exact Or.inr (Or.inl (mem_send.mpr (Or.inl hstill)))
  · exact Or.inr (Or.inr (Or.inl hregistered))
  · rcases mem_erase_or_eq (m := (q₀, d)) hpub with heq | hstill
    · cases heq
      exact Or.inr (Or.inl (mem_send.mpr (Or.inr ⟨isJoined_of_isRegistered hreg, rfl⟩)))
    · exact Or.inr (Or.inr (Or.inr (mem_send.mpr (Or.inl hstill))))

omit [DecidableEq A] in
/-- A party that changes its stage without becoming a running one meets as before. -/
lemma complete_setParty {s : State n A} (h : Complete net s) {p₀ : Fin n} {x : Party A}
    (hrun : x.stage ≠ .running) (hreg : x.stage.isRegistered = true → x.stage = .registered) :
    Complete net (s.setParty p₀ x) := by
  intro p q hp hq htopic hp' hq'
  by_cases hqp : q = p₀
  · subst hqp
    rw [setParty_self] at hq'
    exact absurd hq' hrun
  · rw [setParty_of_ne s x hqp] at hq'
    by_cases hpp : p = p₀
    · subst hpp
      rw [setParty_self] at hp'
      right; right; left
      rw [setParty_self]
      exact hreg hp'
    · rw [setParty_of_ne s x hpp] at hp'
      apply meets_mono (h p q hp hq htopic hp' hq')
      · rw [setParty_of_ne s x hpp]
        exact List.Subset.refl _
      · rw [setParty_of_ne s x hpp]
      · exact fun m hm => hm

lemma complete_move {s s' : State n A} (h : Complete net s) (hm : Move net s s') :
    Complete net s' := by
  cases hm with
  | join p hstage => exact complete_setParty h (by simp) (by simp [Stage.isRegistered])
  | register p hstage => exact complete_setParty h (by simp) (fun _ => rfl)
  | announce p hstage => exact complete_announce h p
  | dropped r d hmem hdrop => exact complete_dropped h hdrop
  | noted p d hmem hrole htopic => exact complete_noted h hrole rfl rfl
  | answered q d hmem hrole htopic => exact complete_answered h hrole

theorem sound_run {as : List (Action n A)} {t : State n A} {es : List Empty}
    (hrun : run (silent (step net)) start as = some (t, es)) : Sound net t := by
  apply move_invariant net (Sound net) ?_ ?_ hrun
  · exact ⟨by simp [start], by simp [start]⟩
  · intro s s' _ h hm
    exact sound_move h hm

theorem complete_run {as : List (Action n A)} {t : State n A} {es : List Empty}
    (hrun : run (silent (step net)) start as = some (t, es)) : Complete net t := by
  apply move_invariant net (Complete net) ?_ ?_ hrun
  · intro p q _ _ _ hreg _
    simp [start, Stage.isRegistered] at hreg
  · intro s s' _ h hm
    exact complete_move h hm

/-- When every party has started and nothing is in flight, `subs_` of a publisher contains the
address of a subscriber exactly when both are on the same topic. -/
theorem quiescent_subs_iff_topic (net : Network n A) (as : List (Action n A)) (t : State n A)
    (es : List Empty) (hrun : run (silent (step net)) start as = some (t, es))
    (hstarted : ∀ p, (t.party p).stage = .running) (hquiet : t.inFlight = []) (p q : Fin n)
    (hp : net.role p = .publisher) (hq : net.role q = .subscriber) :
    net.addr q ∈ (t.party p).subs ↔ net.topic q = net.topic p := by
  constructor
  · intro hmem
    obtain ⟨r, hr, htopic, haddr⟩ := (sound_run hrun).known p hp (net.addr q) hmem
    rw [← net.addr_inj r q hr hq haddr]
    exact htopic
  · intro htopic
    have hreg : (t.party p).stage.isRegistered = true := by
      rw [hstarted p]
      rfl
    rcases complete_run hrun p q hp hq htopic hreg (hstarted q) with hknown | hsub | hstage | hpub
    · exact hknown
    · simp [hquiet] at hsub
    · rw [hstarted p] at hstage
      cases hstage
    · simp [hquiet] at hpub

/-- One publisher and one subscriber of the topic `t`. -/
def pairNetwork : Network 2 ℕ where
  role := fun p => if p.val = 0 then .publisher else .subscriber
  topic := fun _ => "t"
  addr := fun p => p.val
  addr_inj := by decide

def subscriberFirstRun (p q : Fin n) : List (Action n ℕ) :=
  [.join q, .register q, .announce q, .join p, .register p, .announce p,
    .deliver q ⟨"message/t/sub", 1⟩, .deliver p ⟨"message/t/pub", 0⟩,
    .deliver q ⟨"message/t/pub", 0⟩, .deliver p ⟨"message/t/sub", 1⟩,
    .deliver q ⟨"message/t/sub", 1⟩]

theorem quiescent_subs_iff_topic_subscriber_first :
    ∃ t : State 2 ℕ,
      run (silent (step pairNetwork)) start (subscriberFirstRun 0 1) = some (t, []) ∧
      (∀ p, (t.party p).stage = .running) ∧ t.inFlight = [] ∧
      (pairNetwork.addr 1 ∈ (t.party 0).subs ↔ pairNetwork.topic 1 = pairNetwork.topic 0) :=
  ⟨_, rfl, by decide, rfl, quiescent_subs_iff_topic pairNetwork (subscriberFirstRun 0 1) _ [] rfl
    (by decide) rfl 0 1 rfl rfl⟩

end CodeC.Discovery
