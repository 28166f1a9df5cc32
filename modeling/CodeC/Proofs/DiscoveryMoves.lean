import CodeC.Discovery

/-!
# The moves of the discovery protocol

A party has no callback before it registers and exactly one afterwards, so a delivered
datagram is dropped, noted in `subs_` by a publisher, or answered by a subscriber.
-/

namespace CodeC.Discovery

open Library

variable {n : ℕ} {A : Type}

section topics

lemma subTopic_inj {t u : String} (h : subTopic t = subTopic u) : t = u := by
  have hl := congrArg String.toList h
  simp only [subTopic, String.toList_append] at hl
  exact String.toList_inj.mp (List.append_cancel_left (List.append_cancel_right hl))

lemma pubTopic_inj {t u : String} (h : pubTopic t = pubTopic u) : t = u := by
  have hl := congrArg String.toList h
  simp only [pubTopic, String.toList_append] at hl
  exact String.toList_inj.mp (List.append_cancel_left (List.append_cancel_right hl))

lemma subTopic_ne_pubTopic (t u : String) : subTopic t ≠ pubTopic u := by
  intro h
  have hl := congrArg String.toList h
  simp only [subTopic, pubTopic, String.toList_append] at hl
  have hend := (List.append_inj' hl (by simp)).2
  simp at hend

variable (net : Network n A)

lemma announcement_publisher {p : Fin n} (h : net.role p = .publisher) :
    announcement net p = ⟨pubTopic (net.topic p), net.addr p⟩ := by
  unfold announcement
  rw [h]

lemma announcement_subscriber {q : Fin n} (h : net.role q = .subscriber) :
    announcement net q = ⟨subTopic (net.topic q), net.addr q⟩ := by
  unfold announcement
  rw [h]

lemma recvTopic_publisher {p : Fin n} (h : net.role p = .publisher) :
    recvTopic net p = subTopic (net.topic p) := by
  unfold recvTopic
  rw [h]

lemma recvTopic_subscriber {q : Fin n} (h : net.role q = .subscriber) :
    recvTopic net q = pubTopic (net.topic q) := by
  unfold recvTopic
  rw [h]

/-- An announcement under a `/sub` topic is the one of a subscriber of that topic. -/
lemma announcement_sub {p : Fin n} {t : String} (h : (announcement net p).topic = subTopic t) :
    net.role p = .subscriber ∧ net.topic p = t ∧ (announcement net p).payload = net.addr p := by
  cases hrole : net.role p with
  | publisher =>
    rw [announcement_publisher net hrole] at h
    exact absurd h.symm (subTopic_ne_pubTopic t (net.topic p))
  | subscriber =>
    rw [announcement_subscriber net hrole] at h ⊢
    exact ⟨rfl, subTopic_inj h, rfl⟩

/-- An announcement under a `/pub` topic is the one of a publisher of that topic. -/
lemma announcement_pub {p : Fin n} {t : String} (h : (announcement net p).topic = pubTopic t) :
    net.role p = .publisher ∧ net.topic p = t := by
  cases hrole : net.role p with
  | publisher =>
    rw [announcement_publisher net hrole] at h
    exact ⟨rfl, pubTopic_inj h⟩
  | subscriber =>
    rw [announcement_subscriber net hrole] at h
    exact absurd h (subTopic_ne_pubTopic (net.topic p) t)

end topics

section states

@[simp] lemma setParty_inFlight (s : State n A) (p : Fin n) (x : Party A) :
    (s.setParty p x).inFlight = s.inFlight := rfl

@[simp] lemma setParty_self (s : State n A) (p : Fin n) (x : Party A) :
    (s.setParty p x).party p = x := by
  simp [State.setParty]

lemma setParty_of_ne (s : State n A) {p q : Fin n} (x : Party A) (h : q ≠ p) :
    (s.setParty p x).party q = s.party q := by
  simp [State.setParty, h]

@[simp] lemma send_party (s : State n A) (d : Datagram A) : (send s d).party = s.party := rfl

lemma mem_send {s : State n A} {d : Datagram A} {m : Fin n × Datagram A} :
    m ∈ (send s d).inFlight ↔
      m ∈ s.inFlight ∨ ((s.party m.1).stage.isJoined = true ∧ m.2 = d) := mem_multicast

lemma isJoined_of_isRegistered {g : Stage} (h : g.isRegistered = true) : g.isJoined = true := by
  cases g with
  | created => cases h
  | joined => rfl
  | registered => rfl
  | running => rfl

end states

/-- What `callbacks_` contains at each stage. -/
def Handlers (net : Network n A) (s : State n A) : Prop :=
  ∀ p, (s.party p).callbacks =
    if (s.party p).stage.isRegistered then
      Function.update (fun _ => []) (recvTopic net p) [discoverCallback net p]
    else fun _ => []

variable [DecidableEq A]

/-- Every step of the protocol, with its guard and its effect. -/
inductive Move (net : Network n A) (s : State n A) : State n A → Prop
  | join (p : Fin n) (h : (s.party p).stage = .created) :
    Move net s (s.setParty p { s.party p with stage := .joined })
  | register (p : Fin n) (h : (s.party p).stage = .joined) :
    Move net s (s.setParty p { recv (s.party p) (recvTopic net p) (discoverCallback net p) with
      stage := .registered })
  | announce (p : Fin n) (h : (s.party p).stage = .registered) :
    Move net s (send (s.setParty p { s.party p with stage := .running }) (announcement net p))
  | dropped (r : Fin n) (d : Datagram A) (hmem : (r, d) ∈ s.inFlight)
      (h : (s.party r).stage.isRegistered = true → d.topic ≠ recvTopic net r) :
    Move net s { s with inFlight := s.inFlight.erase (r, d) }
  | noted (p : Fin n) (d : Datagram A) (hmem : (p, d) ∈ s.inFlight)
      (hrole : net.role p = .publisher) (htopic : d.topic = subTopic (net.topic p)) :
    Move net s (State.setParty { s with inFlight := s.inFlight.erase (p, d) } p
      { s.party p with subs := (s.party p).subs ++ [d.payload] })
  | answered (q : Fin n) (d : Datagram A) (hmem : (q, d) ∈ s.inFlight)
      (hrole : net.role q = .subscriber) (htopic : d.topic = pubTopic (net.topic q)) :
    Move net s (send { s with inFlight := s.inFlight.erase (q, d) } (announcement net q))

omit [DecidableEq A] in
lemma callbacks_eq {net : Network n A} {s : State n A} (h : Handlers net s) (r : Fin n)
    (topic : String) :
    (s.party r).callbacks topic =
      if (s.party r).stage.isRegistered = true ∧ topic = recvTopic net r then
        [discoverCallback net r] else [] := by
  rw [h r]
  by_cases hreg : (s.party r).stage.isRegistered = true
  · by_cases htopic : topic = recvTopic net r
    · simp [hreg, htopic]
    · simp [hreg, htopic]
  · simp [hreg]

lemma deliver_move {net : Network n A} {s : State n A} (h : Handlers net s) {r : Fin n}
    {d : Datagram A} (hmem : (r, d) ∈ s.inFlight) :
    Move net s (discoverReadCb net { s with inFlight := s.inFlight.erase (r, d) } r d) := by
  unfold discoverReadCb
  change Move net s (((s.party r).callbacks d.topic).foldl _ _)
  rw [callbacks_eq h r d.topic]
  by_cases hhandled : (s.party r).stage.isRegistered = true ∧ d.topic = recvTopic net r
  · rw [if_pos hhandled, List.foldl_cons, List.foldl_nil]
    unfold discoverCallback
    cases hrole : net.role r with
    | publisher =>
      rw [recvTopic_publisher net hrole] at hhandled
      exact .noted r d hmem hrole hhandled.2
    | subscriber =>
      rw [recvTopic_subscriber net hrole] at hhandled
      have hanswer := Move.answered r d hmem hrole hhandled.2
      rw [announcement_subscriber net hrole] at hanswer
      exact hanswer
  · rw [if_neg hhandled]
    exact .dropped r d hmem (fun hreg htopic => hhandled ⟨hreg, htopic⟩)

theorem step_move {net : Network n A} {s s' : State n A} {a : Action n A} (h : Handlers net s)
    (hs : step net s a = some s') : Move net s s' := by
  cases a with
  | join p =>
    cases hstage : (s.party p).stage with
    | created =>
      simp only [step, hstage, Option.some.injEq] at hs
      exact hs ▸ .join p hstage
    | joined => simp [step, hstage] at hs
    | registered => simp [step, hstage] at hs
    | running => simp [step, hstage] at hs
  | register p =>
    cases hstage : (s.party p).stage with
    | joined =>
      simp only [step, hstage, Option.some.injEq] at hs
      exact hs ▸ .register p hstage
    | created => simp [step, hstage] at hs
    | registered => simp [step, hstage] at hs
    | running => simp [step, hstage] at hs
  | announce p =>
    cases hstage : (s.party p).stage with
    | registered =>
      simp only [step, hstage, Option.some.injEq] at hs
      exact hs ▸ .announce p hstage
    | created => simp [step, hstage] at hs
    | joined => simp [step, hstage] at hs
    | running => simp [step, hstage] at hs
  | deliver r d =>
    simp only [step] at hs
    by_cases hmem : (r, d) ∈ s.inFlight
    · rw [if_pos hmem] at hs
      cases hs
      exact deliver_move h hmem
    · simp [hmem] at hs

omit [DecidableEq A] in
/-- Only the party that changes has to be looked at. -/
lemma handlers_setParty {net : Network n A} {s : State n A} {p : Fin n} {x : Party A}
    (h : Handlers net s)
    (hx : x.callbacks = if x.stage.isRegistered then
      Function.update (fun _ => []) (recvTopic net p) [discoverCallback net p] else fun _ => []) :
    Handlers net (s.setParty p x) := by
  intro q
  by_cases hq : q = p
  · subst hq
    rw [setParty_self]
    exact hx
  · rw [setParty_of_ne s _ hq]
    exact h q

lemma handlers_move {net : Network n A} {s s' : State n A} (h : Handlers net s)
    (hm : Move net s s') : Handlers net s' := by
  cases hm with
  | join p hstage =>
    have hold := h p
    simp only [hstage, Stage.isRegistered] at hold
    exact handlers_setParty h (by simpa [Stage.isRegistered] using hold)
  | register p hstage =>
    have hold := h p
    simp only [hstage, Stage.isRegistered] at hold
    exact handlers_setParty h (by simp [recv, hold, Stage.isRegistered])
  | announce p hstage =>
    have hold := h p
    simp only [hstage, Stage.isRegistered] at hold
    intro q
    rw [send_party]
    exact handlers_setParty h (by simpa [Stage.isRegistered] using hold) q
  | dropped r d hmem hdrop => exact h
  | noted p d hmem hrole htopic => exact handlers_setParty h (h p)
  | answered q d hmem hrole htopic => exact h

/-- Invariant rule: what every move preserves holds in every reachable state. -/
theorem move_invariant (net : Network n A) (I : State n A → Prop) (hstart : I start)
    (hmove : ∀ s s', Handlers net s → I s → Move net s s' → I s')
    {as : List (Action n A)} {t : State n A} {es : List Empty}
    (hrun : run (silent (step net)) start as = some (t, es)) : I t := by
  refine run_invariant_under (silent (step net)) (A := fun _ => True) (I := Handlers net) (P := I)
    ?_ ?_ (fun _ _ => trivial) (fun p => rfl) hstart hrun
  · intro s a s' fs hhandlers hs
    exact handlers_move hhandlers (step_move hhandlers (silent_eq_some hs))
  · intro s a s' fs hhandlers _ hs hI
    exact hmove s s' hhandlers hI (step_move hhandlers (silent_eq_some hs))

end CodeC.Discovery
