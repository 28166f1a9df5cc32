import CodeC.Library.BoundedFifo
import CodeC.Library.Ring

/-!
# Blocking bounded queues in a ring of slots

The blocking queue whose items are stored in a `Ring`. Every call reports the slot it has used,
so that index safety and reuse of slots are facts about the log of a run. A ring of `cap + 1`
slots simulates the list of at most `cap` items.
-/

namespace CodeC.Library.RingFifo

open Monitor BoundedFifo

variable {α : Type} {n : ℕ}

structure RingQueue (α : Type) where
  ring : Ring α
  closed : Bool

/-- A result of the list together with the slot that was written or read. -/
abbrev SlotResult (α : Type) := Result α × Option ℕ

def ringBody (q : RingQueue α) : Op α → Outcome (RingQueue α) (SlotResult α) Cond
  | .put x =>
    if q.closed then .ret q (.refused, none) none []
    else if q.ring.Full then .wait .notFull
    else .ret { q with ring := q.ring.push x } (.accepted, some q.ring.inPos) (some .notEmpty) []
  | .get =>
    if q.closed then .ret q (.refused, none) none []
    else if q.ring.Empty then .wait .notEmpty
    else
      .ret { q with ring := q.ring.pop } (.taken (q.ring.data q.ring.outPos), some q.ring.outPos)
        (some .notFull) []
  | .close => .ret { q with closed := true } (.closed, none) none [.notEmpty, .notFull]

/-- The ring stores the list. -/
structure Stores (cap : ℕ) (q : RingQueue α) (f : Fifo α) : Prop where
  size_eq : q.ring.size = cap + 1
  holds : q.ring.Holds f.items
  closed_eq : f.closed = q.closed

lemma ringBody_rel {cap : ℕ} {q : RingQueue α} {f : Fifo α} (h : Stores cap q f) (op : Op α) :
    Outcome.Rel (Stores cap) Prod.fst (ringBody q op) (body cap f op) := by
  have hclosed := h.closed_eq
  cases op with
  | put x =>
    simp only [ringBody, body, hclosed]
    by_cases hc : q.closed = true
    · rw [if_pos hc, if_pos hc]
      exact .ret _ _ (Result.refused, none) _ _ h
    · rw [if_neg hc, if_neg hc]
      have hfull : q.ring.Full ↔ f.items.length = cap := by
        rw [h.holds.full_iff, h.size_eq]
        omega
      by_cases hf : q.ring.Full
      · rw [if_pos hf, if_pos (hfull.mp hf)]
        exact .wait _
      · rw [if_neg hf, if_neg (fun he => hf (hfull.mpr he))]
        exact .ret _ _ (Result.accepted, some _) _ _ ⟨h.size_eq, h.holds.push hf x, rfl⟩
  | get =>
    simp only [ringBody, body, hclosed]
    by_cases hc : q.closed = true
    · rw [if_pos hc, if_pos hc]
      exact .ret _ _ (Result.refused, none) _ _ h
    · rw [if_neg hc, if_neg hc]
      have hempty := h.holds.empty_iff
      cases hitems : f.items with
      | nil =>
        rw [if_pos (hempty.mpr hitems)]
        exact .wait _
      | cons x l =>
        have hholds := h.holds
        rw [hitems] at hholds
        obtain ⟨hx, hpop⟩ := hholds.pop
        rw [if_neg (fun he => by simp [hempty.mp he] at hitems), hx]
        exact .ret _ _ (Result.taken x, some _) _ _ ⟨h.size_eq, hpop, rfl⟩
  | close =>
    exact .ret _ _ (Result.closed, none) _ _ ⟨h.size_eq, h.holds, rfl⟩

/-- A log of results that translate to slot results, read through the translation. -/
lemma filterMap_translate {ρ γ : Type} {g : ρ → SlotResult α} {f : Op α × SlotResult α → Option γ}
    {k : Op α × ρ → Option γ} (h : ∀ op r, f (op, g r) = k (op, r)) (l : List (Op α × ρ)) :
    (l.map fun p => (p.1, g p.2)).filterMap f = l.filterMap k := by
  rw [List.filterMap_map]
  apply List.filterMap_congr
  rintro ⟨op, r⟩ _
  exact h op r

/-- The log without the slots. -/
def results (l : List (Op α × SlotResult α)) : List (Op α × Result α) :=
  l.map fun p => (p.1, p.2.1)

lemma sections_results (es : List (Event (Op α) (SlotResult α) n)) :
    sections (es.map (Event.map Prod.fst)) = results (sections es) := sections_map Prod.fst es

/-- The slots written by the puts, in the order of their critical sections. -/
def putSlots (l : List (Op α × SlotResult α)) : List ℕ :=
  l.filterMap fun p => match p with
    | (.put _, (_, slot)) => slot
    | _ => none

/-- The slots read by the gets, in the order of their critical sections. -/
def getSlots (l : List (Op α × SlotResult α)) : List ℕ :=
  l.filterMap fun p => match p with
    | (.get, (_, slot)) => slot
    | _ => none

/-- The calls go round the ring: the `k`-th accepted put and the `k`-th successful get use
slot `k` modulo the size. -/
structure Rounds (size : ℕ) (q : RingQueue α) (l : List (Op α × SlotResult α)) : Prop where
  size_eq : q.ring.size = size
  in_eq : q.ring.inPos = (accepted (results l)).length % size
  out_eq : q.ring.outPos = (taken (results l)).length % size
  puts : putSlots l = (List.range (accepted (results l)).length).map (· % size)
  gets : getSlots l = (List.range (taken (results l)).length).map (· % size)

lemma rounds_same {size : ℕ} {q q' : RingQueue α} {l : List (Op α × SlotResult α)}
    (h : Rounds size q l) (hring : q'.ring = q.ring) {p : Op α × SlotResult α}
    (ha : accepted (results [p]) = []) (ht : taken (results [p]) = []) (hp : putSlots [p] = [])
    (hg : getSlots [p] = []) : Rounds size q' (l ++ [p]) := by
  have hresults : results (l ++ [p]) = results l ++ results [p] := List.map_append
  have haccepted : accepted (results (l ++ [p])) = accepted (results l) := by
    rw [hresults, accepted_append, ha, List.append_nil]
  have htaken : taken (results (l ++ [p])) = taken (results l) := by
    rw [hresults, taken_append, ht, List.append_nil]
  constructor
  · rw [hring, h.size_eq]
  · rw [hring, h.in_eq, haccepted]
  · rw [hring, h.out_eq, htaken]
  · unfold putSlots at hp ⊢
    rw [List.filterMap_append, hp, List.append_nil, haccepted]
    exact h.puts
  · unfold getSlots at hg ⊢
    rw [List.filterMap_append, hg, List.append_nil, htaken]
    exact h.gets

lemma rounds_accepted {size : ℕ} {q : RingQueue α} {l : List (Op α × SlotResult α)}
    (h : Rounds size q l) (x : α) :
    Rounds size { q with ring := q.ring.push x }
      (l ++ [(.put x, (.accepted, some q.ring.inPos))]) := by
  have hresults : results (l ++ [(.put x, (.accepted, some q.ring.inPos))]) =
      results l ++ [(.put x, .accepted)] := List.map_append
  constructor
  · exact h.size_eq
  · change (q.ring.inPos + 1) % q.ring.size = _
    rw [hresults, accepted_append, List.length_append, h.in_eq, h.size_eq, Nat.mod_add_mod]
    rfl
  · simp [Ring.push, hresults, taken, h.out_eq]
  · have hputs := h.puts
    have hin := h.in_eq
    unfold putSlots at hputs ⊢
    rw [List.filterMap_append, hputs, hresults, accepted_append, List.length_append, hin]
    simp [accepted, List.range_succ]
  · have hgets := h.gets
    unfold getSlots at hgets ⊢
    rw [List.filterMap_append, hgets, hresults, taken_append]
    simp [taken]

lemma rounds_taken {size : ℕ} {q : RingQueue α} {l : List (Op α × SlotResult α)}
    (h : Rounds size q l) (x : α) :
    Rounds size { q with ring := q.ring.pop } (l ++ [(.get, (.taken x, some q.ring.outPos))]) := by
  have hresults : results (l ++ [(.get, (.taken x, some q.ring.outPos))]) =
      results l ++ [(.get, .taken x)] := List.map_append
  constructor
  · exact h.size_eq
  · simp [Ring.pop, hresults, accepted, h.in_eq]
  · change (q.ring.outPos + 1) % q.ring.size = _
    rw [hresults, taken_append, List.length_append, h.out_eq, h.size_eq, Nat.mod_add_mod]
    rfl
  · have hputs := h.puts
    unfold putSlots at hputs ⊢
    rw [List.filterMap_append, hputs, hresults, accepted_append]
    simp [accepted]
  · have hgets := h.gets
    have hout := h.out_eq
    unfold getSlots at hgets ⊢
    rw [List.filterMap_append, hgets, hresults, taken_append, List.length_append, hout]
    simp [taken, List.range_succ]

lemma rounds_body {size : ℕ} {q q' : RingQueue α} {l : List (Op α × SlotResult α)} {op : Op α}
    {r : SlotResult α} {signal : Option Cond} {broadcasts : List Cond} (h : Rounds size q l)
    (hbody : ringBody q op = .ret q' r signal broadcasts) : Rounds size q' (l ++ [(op, r)]) := by
  cases op with
  | put x =>
    simp only [ringBody] at hbody
    by_cases hc : q.closed = true
    · rw [if_pos hc] at hbody
      cases hbody
      exact rounds_same h rfl rfl rfl rfl rfl
    · rw [if_neg hc] at hbody
      by_cases hf : q.ring.Full
      · rw [if_pos hf] at hbody
        cases hbody
      · rw [if_neg hf] at hbody
        cases hbody
        exact rounds_accepted h x
  | get =>
    simp only [ringBody] at hbody
    by_cases hc : q.closed = true
    · rw [if_pos hc] at hbody
      cases hbody
      exact rounds_same h rfl rfl rfl rfl rfl
    · rw [if_neg hc] at hbody
      by_cases he : q.ring.Empty
      · rw [if_pos he] at hbody
        cases hbody
      · rw [if_neg he] at hbody
        cases hbody
        exact rounds_taken h (q.ring.data q.ring.outPos)
  | close =>
    simp only [ringBody, Outcome.ret.injEq] at hbody
    rw [← hbody.1, ← hbody.2.1]
    apply rounds_same h
    all_goals rfl

/-- A ring queue without items. -/
structure Fresh (size : ℕ) (q : RingQueue α) : Prop where
  size_eq : q.ring.size = size
  in_eq : q.ring.inPos = 0
  out_eq : q.ring.outPos = 0
  opened : q.closed = false

theorem rounds_run {size : ℕ} {q : RingQueue α} (h : Fresh size q)
    {t : State (RingQueue α) (Op α) Cond n} {as : List (Action (Op α) n)}
    {es : List (Event (Op α) (SlotResult α) n)}
    (hrun : run (step ringBody) (start q) as = some (t, es)) :
    Rounds size t.obj (sections es) := by
  apply run_object_invariant (Rounds size) ?_ ?_ hrun
  · intro q l op q' r signal broadcasts hq hbody
    exact rounds_body hq hbody
  · exact ⟨h.size_eq, by simp [start, h.in_eq, results, accepted],
      by simp [start, h.out_eq, results, taken], rfl, rfl⟩

/-- The interleavings of the ring queue are those of the list. -/
theorem fifo_run {cap : ℕ} {q : RingQueue α} (h : Fresh (cap + 1) q)
    {t : State (RingQueue α) (Op α) Cond n} {as : List (Action (Op α) n)}
    {es : List (Event (Op α) (SlotResult α) n)}
    (hrun : run (step ringBody) (start q) as = some (t, es)) :
    ∃ f, run (step (body cap)) (start ⟨[], false⟩) as = some (f, es.map (Event.map Prod.fst)) ∧
      t.Rel (Stores cap) f := by
  apply run_simulates (fun q f op hq => ringBody_rel hq op) ?_ hrun
  refine ⟨⟨h.size_eq, ?_, h.opened.symm⟩, rfl⟩
  apply Ring.holds_nil
  · have hsize := h.size_eq
    change 0 < q.ring.size
    omega
  · exact h.in_eq
  · exact h.out_eq

/-- An accepted item that has not been taken is still in the slot it was put in, and this is
not the slot that the next put writes. -/
lemma slot_kept {cap : ℕ} {q : RingQueue α} {f : Fifo α} {l : List (Op α × SlotResult α)}
    (hstores : Stores cap q f) (hhist : History cap f (results l)) (hrounds : Rounds (cap + 1) q l)
    {k : ℕ} {x : α} (hk : (taken (results l)).length ≤ k)
    (hx : (accepted (results l))[k]? = some x) :
    q.ring.data (k % (cap + 1)) = x ∧ k % (cap + 1) ≠ q.ring.inPos := by
  have hitem : f.items[k - (taken (results l)).length]? = some x := by
    rw [hhist.order, List.getElem?_append_right hk] at hx
    exact hx
  have hslot : (q.ring.outPos + (k - (taken (results l)).length)) % q.ring.size = k % (cap + 1) := by
    rw [hrounds.out_eq, hrounds.size_eq, Nat.mod_add_mod]
    congr 1
    omega
  rw [← hslot]
  constructor
  · exact hstores.holds.items _ x hitem
  · exact hstores.holds.in_ne (List.getElem?_eq_some_iff.mp hitem).1

end CodeC.Library.RingFifo
