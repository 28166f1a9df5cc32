import CodeC.Library.MonitorWakeups

/-!
# Blocking bounded FIFO queues

The purpose of a blocking queue, as a monitor over a list: `put` waits while the queue holds
`cap` items, `get` waits while it is empty, and `close` makes every later call be refused.
-/

namespace CodeC.Library.BoundedFifo

open Monitor

variable {α : Type} {n : ℕ}

inductive Op (α : Type) where
  | put (x : α)
  | get
  | close

inductive Cond where
  | notEmpty
  | notFull
  deriving DecidableEq

inductive Result (α : Type) where
  | accepted
  | taken (x : α)
  | refused
  | closed

structure Fifo (α : Type) where
  items : List α
  closed : Bool

def body (cap : ℕ) (q : Fifo α) : Op α → Outcome (Fifo α) (Result α) Cond
  | .put x =>
    if q.closed then .ret q .refused none []
    else if q.items.length = cap then .wait .notFull
    else .ret { q with items := q.items ++ [x] } .accepted (some .notEmpty) []
  | .get =>
    if q.closed then .ret q .refused none []
    else
      match q.items with
      | [] => .wait .notEmpty
      | x :: l => .ret { q with items := l } (.taken x) (some .notFull) []
  | .close => .ret { q with closed := true } .closed none [.notEmpty, .notFull]

/-- The items of the accepted puts, in the order of their critical sections. -/
def accepted (l : List (Op α × Result α)) : List α :=
  l.filterMap fun p => match p with
    | (.put x, .accepted) => some x
    | _ => none

/-- The items handed out, in the order of the critical sections. -/
def taken (l : List (Op α × Result α)) : List α :=
  l.filterMap fun p => match p with
    | (_, .taken x) => some x
    | _ => none

@[simp] lemma accepted_append (l m : List (Op α × Result α)) :
    accepted (l ++ m) = accepted l ++ accepted m := List.filterMap_append

@[simp] lemma taken_append (l m : List (Op α × Result α)) :
    taken (l ++ m) = taken l ++ taken m := List.filterMap_append

/-- Every critical section that ends, with its guard and its effect. -/
inductive Section (cap : ℕ) (q : Fifo α) :
    Op α → Fifo α → Result α → Option Cond → List Cond → Prop
  | refused (op : Op α) (h : q.closed = true) : Section cap q op q .refused none []
  | accepted (x : α) (hopen : q.closed = false) (hroom : q.items.length ≠ cap) :
    Section cap q (.put x) { q with items := q.items ++ [x] } .accepted (some .notEmpty) []
  | taken (x : α) (l : List α) (hopen : q.closed = false) (hitems : q.items = x :: l) :
    Section cap q .get { q with items := l } (.taken x) (some .notFull) []
  | closed : Section cap q .close { q with closed := true } .closed none [.notEmpty, .notFull]

lemma body_section {cap : ℕ} {q q' : Fifo α} {op : Op α} {r : Result α} {signal : Option Cond}
    {broadcasts : List Cond} (h : body cap q op = .ret q' r signal broadcasts) :
    Section cap q op q' r signal broadcasts := by
  cases op with
  | put x =>
    simp only [body] at h
    by_cases hclosed : q.closed = true
    · rw [if_pos hclosed] at h
      cases h
      exact .refused _ hclosed
    · rw [if_neg hclosed] at h
      by_cases hfull : q.items.length = cap
      · rw [if_pos hfull] at h
        cases h
      · rw [if_neg hfull] at h
        cases h
        exact .accepted x (by simpa using hclosed) hfull
  | get =>
    simp only [body] at h
    by_cases hclosed : q.closed = true
    · rw [if_pos hclosed] at h
      cases h
      exact .refused _ hclosed
    · rw [if_neg hclosed] at h
      cases hitems : q.items with
      | nil => simp [hitems] at h
      | cons x l =>
        rw [hitems] at h
        cases h
        exact .taken x l (by simpa using hclosed) hitems
  | close =>
    cases h
    exact .closed

/-- First in, first out: what was accepted is what was taken followed by what is stored. -/
structure History (cap : ℕ) (q : Fifo α) (l : List (Op α × Result α)) : Prop where
  order : accepted l = taken l ++ q.items
  bound : q.items.length ≤ cap

lemma history_section {cap : ℕ} {q q' : Fifo α} {l : List (Op α × Result α)} {op : Op α}
    {r : Result α} {signal : Option Cond} {broadcasts : List Cond} (h : History cap q l)
    (hs : Section cap q op q' r signal broadcasts) : History cap q' (l ++ [(op, r)]) := by
  cases hs with
  | refused op hclosed =>
    refine ⟨?_, h.bound⟩
    have ha : accepted [(op, Result.refused)] = ([] : List α) := by
      cases op <;> rfl
    rw [accepted_append, taken_append, ha, List.append_nil, h.order]
    simp [taken]
  | accepted x hopen hroom =>
    constructor
    · rw [accepted_append, taken_append, h.order]
      simp [accepted, taken]
    · have hbound := h.bound
      simp only [List.length_append, List.length_singleton]
      omega
  | taken x l hopen hitems =>
    constructor
    · rw [accepted_append, taken_append, h.order, hitems]
      simp [accepted, taken]
    · have hbound := h.bound
      rw [hitems, List.length_cons] at hbound
      exact (Nat.le_succ _).trans hbound
  | closed =>
    refine ⟨?_, h.bound⟩
    rw [accepted_append, taken_append, h.order]
    simp [accepted, taken]

theorem history_run {cap : ℕ} {t : State (Fifo α) (Op α) Cond n} {as : List (Action (Op α) n)}
    {es : List (Event (Op α) (Result α) n)}
    (hrun : run (step (body cap)) (start ⟨[], false⟩) as = some (t, es)) :
    History cap t.obj (sections es) := by
  apply run_object_invariant (History cap) ?_ ?_ hrun
  · intro q l op q' r signal broadcasts h hbody
    exact history_section h (body_section hbody)
  · exact ⟨rfl, Nat.zero_le cap⟩

/-- A closed queue stays closed, accepts nothing and hands out nothing. -/
theorem closed_run {cap : ℕ} {s t : State (Fifo α) (Op α) Cond n} {as : List (Action (Op α) n)}
    {es : List (Event (Op α) (Result α) n)} (hclosed : s.obj.closed = true)
    (hrun : run (step (body cap)) s as = some (t, es)) :
    accepted (sections es) = [] ∧ taken (sections es) = [] := by
  have h := run_object_invariant
    (fun (q : Fifo α) l => q.closed = true ∧ accepted l = [] ∧ taken l = []) ?_
    ⟨hclosed, rfl, rfl⟩ hrun
  · exact h.2
  · rintro q l op q' r signal broadcasts ⟨hq, ha, ht⟩ hbody
    rw [accepted_append, taken_append, ha, ht]
    cases body_section hbody with
    | refused op _ => exact ⟨hq, by cases op <;> rfl, rfl⟩
    | accepted x hopen _ => simp [hq] at hopen
    | taken x l hopen _ => simp [hq] at hopen
    | closed => exact ⟨rfl, rfl, rfl⟩

section wakeups

/-- The condition an operation may wait on. -/
def Op.cond : Op α → Option Cond
  | .put _ => some .notFull
  | .get => some .notEmpty
  | .close => none

def Op.Closes : Op α → Prop
  | .close => True
  | _ => False

/-- Items are the units of `notEmpty`, free places those of `notFull`. -/
def avail (cap : ℕ) (q : Fifo α) : Cond → ℕ
  | .notEmpty => q.items.length
  | .notFull => cap - q.items.length

/-- A call waits only on an open queue that has no unit of its condition left. -/
lemma body_wait {cap : ℕ} {q : Fifo α} {op : Op α} {c : Cond} (h : body cap q op = .wait c) :
    q.closed = false ∧ op.cond = some c ∧ avail cap q c = 0 := by
  cases op with
  | put x =>
    simp only [body] at h
    by_cases hclosed : q.closed = true
    · simp [hclosed] at h
    · by_cases hfull : q.items.length = cap
      · rw [if_neg hclosed, if_pos hfull] at h
        cases h
        exact ⟨by simpa using hclosed, rfl, by simp [avail, hfull]⟩
      · simp [hclosed, hfull] at h
  | get =>
    simp only [body] at h
    by_cases hclosed : q.closed = true
    · simp [hclosed] at h
    · cases hitems : q.items with
      | nil =>
        rw [if_neg hclosed, hitems] at h
        cases h
        exact ⟨by simpa using hclosed, rfl, by simp [avail, hitems]⟩
      | cons x l => simp [hclosed, hitems] at h
  | close => simp [body] at h

theorem body_resource (cap : ℕ) :
    Resource (body cap) (fun q : Fifo α => q.items.length ≤ cap) (fun q => q.closed = false)
      Op.cond (avail cap) Op.Closes where
  inv_ret := by
    intro q op q' r signal broadcasts hq hbody
    cases body_section hbody with
    | refused op hclosed => exact hq
    | accepted x hopen hroom =>
      simp only [List.length_append, List.length_singleton]
      omega
    | taken x l hopen hitems =>
      rw [hitems, List.length_cons] at hq
      exact (Nat.le_succ _).trans hq
    | closed => exact hq
  wait_spec := by
    intro q op c _ hbody
    exact body_wait hbody
  ret_spec := by
    intro q op q' r signal broadcasts hq hbody hopen'
    cases body_section hbody with
    | refused op hclosed => simp [hclosed] at hopen'
    | accepted x hopen hroom =>
      refine ⟨hopen, fun c => ?_⟩
      cases c with
      | notEmpty => simp [avail, Op.cond]
      | notFull =>
        simp only [avail, Op.cond, List.length_append, List.length_singleton]
        simp
        omega
    | taken x l hopen hitems =>
      refine ⟨hopen, fun c => ?_⟩
      cases c with
      | notEmpty => simp [avail, Op.cond, hitems]
      | notFull =>
        simp [avail, Op.cond, hitems]
        omega
    | closed => simp at hopen'
  broadcast_spec := by
    intro q op q' r signal broadcasts hbody hne
    cases body_section hbody with
    | refused op hclosed => exact absurd rfl hne
    | accepted x hopen hroom => exact absurd rfl hne
    | taken x l hopen hitems => exact absurd rfl hne
    | closed => exact ⟨by simp, fun c => by cases c <;> simp⟩
  closing_spec := by
    intro q op q' r signal hop hbody
    cases op with
    | put x => exact hop
    | get => exact hop
    | close => simp [body] at hbody

end wakeups

end CodeC.Library.BoundedFifo
