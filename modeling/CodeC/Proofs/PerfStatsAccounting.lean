import CodeC.Proofs.PerfStatsSteps
import Mathlib.Algebra.Group.Nat.Defs

/-!
# What `PerfStats` reports

As long as the two `Print`s do not both hold a count they have loaded and not yet subtracted, what
is in `loops_`, what has been subtracted and what has been reported make up what was passed to
`Incr`. Around `Stop` both may hold one, and then the count loaded first is reported twice.
-/

namespace CodeC.PerfStats
open Library

/-- Both `Print`s hold a count. `total` was passed to `Incr` before the second load, and `first` is
the count loaded first. -/
structure Overlap where
  total : ℕ
  first : ℕ

/-- The sum of the counts passed to `Incr` and of those reported, the counts that are loaded and not
yet subtracted, whether `Stop` has returned, and whether no `Incr` has happened since its call -/
structure History where
  total : ℕ
  reported : ℕ
  window : Printer → ℕ
  overlap : Option Overlap
  stopped : Bool
  quiet : Bool

def record (h : History) : Event → History
  | .incr loops => { h with total := h.total + loops.toNat, quiet := false }
  | .load p loops =>
    { h with
      window := Function.update h.window p loops.toNat
      overlap := if 0 < loops.toNat ∧ 0 < h.window p.other then some ⟨h.total, h.window p.other⟩
        else h.overlap }
  | .take p _ => { h with window := Function.update h.window p 0 }
  | .report _ r => { h with reported := h.reported + r.loops.toNat }
  | .stopping => { h with quiet := true }
  | .stopped => { h with stopped := true }

def history (es : List Event) : History :=
  observe record ⟨0, 0, fun _ => 0, none, false, false⟩ es

/-- No count is reported that was not passed to `Incr`, and when `Stop` has returned and no `Incr`
has happened since its call, all are reported. -/
def Accounts (h : History) : Prop :=
  h.reported ≤ h.total ∧ (h.stopped = true → h.quiet = true → h.reported = h.total)

/-- Some `Print` has loaded a count and not reported it. -/
def Unreported (s : State) : Prop := ∃ p, 0 < s.loaded p + s.taken p

/-- The `Print`s have not both held a count, or one of them has not reported its count yet, or what
has been passed to `Incr` since makes up for the count reported twice. -/
def Covered (s : State) (h : History) : Prop :=
  ∀ o, h.overlap = some o → Unreported s ∨ o.total + o.first ≤ h.total

def both (f : Printer → ℕ) : ℕ := f .thread + f .stop

lemma both_eq (f : Printer → ℕ) (p : Printer) : both f = f p + f p.other := by
  cases p with
  | thread => rfl
  | stop => exact Nat.add_comm _ _

/-- One of the two changes what it holds. -/
lemma both_holds {s s' : State} {p : Printer} {loaded taken loaded' taken' : ℕ}
    (hp : Holds s p loaded taken) (hp' : Holds s' p loaded' taken')
    (hother : Holds s' p.other (s.loaded p.other) (s.taken p.other)) :
    both s'.loaded + loaded = both s.loaded + loaded' ∧
      both s'.taken + taken = both s.taken + taken' := by
  rw [both_eq s.loaded p, both_eq s.taken p, both_eq s'.loaded p, both_eq s'.taken p, hp.1, hp.2,
    hp'.1, hp'.2, hother.1, hother.2]
  omega

lemma both_held {s s' : State} (hheld : ∀ p, Holds s' p (s.loaded p) (s.taken p)) :
    both s'.loaded = both s.loaded ∧ both s'.taken = both s.taken := by
  unfold both
  rw [(hheld _).1, (hheld _).1, (hheld _).2, (hheld _).2]
  exact ⟨rfl, rfl⟩

lemma observe_uncounted {es : List Event} (hes : Uncounted es) (h : History) :
    (observe record h es).total = h.total ∧ (observe record h es).reported = h.reported ∧
      (observe record h es).window = h.window ∧ (observe record h es).overlap = h.overlap := by
  rcases hes with rfl | rfl | rfl <;> exact ⟨rfl, rfl, rfl, rfl⟩

/-- The history knows the counts that are loaded. -/
lemma window_counts {s s' : State} {h : History} {es : List Event} (hw : h.window = s.loaded)
    (hcounts : Counts s s' es) : (observe record h es).window = s'.loaded := by
  funext q
  cases hcounts with
  | incr loops hloops hheld =>
    rw [(hheld q).1, ← hw]
    rfl
  | load p hloops hpc hpc' hother =>
    change Function.update h.window p s.loops.toNat q = s'.loaded q
    rcases Printer.eq_or_other p q with rfl | rfl
    · rw [Function.update_self]
      exact (holds_of_pc hpc').1.symm
    · rw [Function.update_of_ne p.other_ne, hw]
      exact (holds_same hother).1.symm
  | take p loops hloops hp hp' hother =>
    change Function.update h.window p 0 q = s'.loaded q
    rcases Printer.eq_or_other p q with rfl | rfl
    · rw [Function.update_self, hp'.1]
    · rw [Function.update_of_ne p.other_ne, hw, hother.1]
  | report p r hloops hp hp' hother =>
    change h.window q = s'.loaded q
    rcases Printer.eq_or_other p q with rfl | rfl
    · rw [hw, hp.1, hp'.1]
    · rw [hw, hother.1]
  | other es hes hloops hheld => rw [(observe_uncounted hes h).2.2.1, hw, (hheld q).1]

/-- `Stop` has loaded its count. -/
def Drained (s : State) : Prop :=
  s.stop = .joining ∨ (∃ pc, s.stop = .printing pc ∧ pc ≠ .entered) ∨ s.joinable = false

/-- The `Print`s have not both held a count: what was passed to `Incr` is in `loops_`, subtracted or
reported. When `Stop` has loaded its count and no `Incr` has happened since its call, nothing else
is in `loops_`. -/
structure Conserved (s : State) (h : History) : Prop where
  overlap : h.overlap = none
  sum : s.loops.toNat + h.reported + both s.taken = h.total
  room : both s.loaded ≤ s.loops.toNat
  drained : h.quiet = true → Drained s → s.loops.toNat = s.loaded .stop

lemma toNat_add_neg {a b : UInt64} (h : b.toNat ≤ a.toNat) :
    (a + -b).toNat = a.toNat - b.toNat := by
  rw [← UInt64.sub_eq_add_neg, UInt64.toNat_sub_of_le _ _ h]

lemma overlap_load (h : History) (p : Printer) (loops : UInt64) :
    (observe record h [.load p loops]).overlap =
      if 0 < loops.toNat ∧ 0 < h.window p.other then some ⟨h.total, h.window p.other⟩
      else h.overlap := rfl

lemma Conserved.counts {s s' : State} {h : History} {es : List Event} (hs : Conserved s h)
    (hw : h.window = s.loaded) (hcounts : Counts s s' es)
    (htotal : (observe record h es).total < 2 ^ 64)
    (hoverlap : (observe record h es).overlap = none) :
    s'.loops.toNat + (observe record h es).reported + both s'.taken = (observe record h es).total ∧
      both s'.loaded ≤ s'.loops.toNat := by
  have hsum := hs.sum
  have hroom := hs.room
  cases hcounts with
  | incr loops hloops hheld =>
    obtain ⟨hloaded, htaken⟩ := both_held hheld
    change h.total + loops.toNat < 2 ^ 64 at htotal
    change _ + h.reported + _ = h.total + loops.toNat ∧ _
    rw [hloops, UInt64.toNat_add, Nat.mod_eq_of_lt (by omega)]
    omega
  | load p hloops hpc hpc' hother =>
    have hp : Holds s p 0 0 := holds_of_pc hpc
    have hp' : Holds s' p s.loops.toNat 0 := holds_of_pc hpc'
    obtain ⟨hloaded, htaken⟩ := both_holds hp hp' (holds_same hother)
    have hapart : ¬(0 < s.loops.toNat ∧ 0 < s.loaded p.other) := by
      intro hboth
      rw [overlap_load, hw, if_pos hboth] at hoverlap
      cases hoverlap
    have hsplit := both_eq s.loaded p
    rw [hp.1] at hsplit
    change _ + h.reported + _ = h.total ∧ _
    rw [hloops]
    omega
  | take p loops hloops hp hp' hother =>
    obtain ⟨hloaded, htaken⟩ := both_holds hp hp' hother
    change _ + h.reported + _ = h.total ∧ _
    rw [hloops, toNat_add_neg (by omega)]
    omega
  | report p r hloops hp hp' hother =>
    obtain ⟨hloaded, htaken⟩ := both_holds hp hp' hother
    change _ + (h.reported + r.loops.toNat) + _ = h.total ∧ _
    rw [hloops]
    omega
  | other es hes hloops hheld =>
    obtain ⟨hloaded, htaken⟩ := both_held hheld
    obtain ⟨htotal, hreported, -, -⟩ := observe_uncounted hes h
    rw [htotal, hreported, hloops, hloaded, htaken]
    exact ⟨hsum, hroom⟩

lemma drained_of_pc {s : State} {pc : PrintPc} (hpc : s.pc .stop = some pc) (hne : pc ≠ .entered) :
    Drained s :=
  Or.inr (Or.inl ⟨pc, pc_stop_iff.mp hpc, hne⟩)

/-- Only the load of `Stop` itself makes it drained, and it is not when it is called. -/
lemma Moves.drained {s s' : State} {h : History} {es : List Event} (hmoves : Moves s s' es)
    (hctl : Control s) (hd : Drained s') :
    es = [.load .stop s.loops] ∨
      Drained s ∧ ((observe record h es).quiet = true → h.quiet = true) := by
  cases hmoves with
  | incr loops => exact Or.inr ⟨hd, by simp [observe, record]⟩
  | exit ht hc => exact Or.inr ⟨hd, id⟩
  | enter ht hc => exact Or.inr ⟨hd, id⟩
  | load p hpc =>
    cases p with
    | thread => exact Or.inr ⟨hd, id⟩
    | stop => exact Or.inl rfl
  | take p loops hpc =>
    cases p with
    | thread => exact Or.inr ⟨hd, id⟩
    | stop => exact Or.inr ⟨drained_of_pc hpc (by simp), id⟩
  | crash => exact Or.inr ⟨hd, id⟩
  | report p r now hpc =>
    cases p with
    | thread => exact Or.inr ⟨hd, id⟩
    | stop => exact Or.inr ⟨drained_of_pc hpc (by simp), id⟩
  | finish p stop hpc =>
    cases p with
    | thread => exact Or.inr ⟨hd, id⟩
    | stop => exact Or.inr ⟨drained_of_pc hpc (by simp), id⟩
  | call hidle hj => simp [Drained, hj] at hd
  | again hidle hj => exact Or.inr ⟨hd, id⟩
  | cancel hcancelling =>
    simp [Drained, hctl.joinable_of_cancelling hcancelling] at hd
  | join hjoining ht => exact Or.inr ⟨Or.inl hjoining, id⟩

/-- What `Stop` has not loaded was passed to `Incr` after its call. -/
lemma Conserved.drained_moves {s s' : State} {h : History} {es : List Event} (hs : Conserved s h)
    (hctl : Control s) (hmoves : Moves s s' es) (hquiet : (observe record h es).quiet = true)
    (hd : Drained s') : s'.loops.toNat = s'.loaded .stop := by
  rcases hmoves.drained hctl hd with rfl | ⟨hd, hq⟩
  · cases hmoves with
    | load => rfl
  · have heq := hs.drained (hq hquiet) hd
    have hroom : s.loaded .thread + s.loaded .stop ≤ s.loops.toNat := hs.room
    cases hmoves.counts with
    | incr loops hloops hheld => cases hquiet
    | load p hloops hpc hpc' hother =>
      cases p with
      | thread =>
        have hstop : s'.loaded .stop = s.loaded .stop := (holds_same hother).1
        rw [hloops, heq, hstop]
      | stop =>
        have hstop : s'.loaded .stop = s.loops.toNat := (holds_of_pc hpc').1
        rw [hloops, hstop]
    | take p loops hloops hp hp' hother =>
      -- The thread takes nothing, for `Stop` has loaded all there is.
      cases p with
      | thread =>
        have hthread : s.loaded .thread = loops.toNat := hp.1
        have hstop : s'.loaded .stop = s.loaded .stop := hother.1
        rw [hloops, toNat_add_neg (by omega)]
        omega
      | stop =>
        have hstop : s.loaded .stop = loops.toNat := hp.1
        have hstop' : s'.loaded .stop = 0 := hp'.1
        rw [hloops, toNat_add_neg (by omega)]
        omega
    | report p r hloops hp hp' hother =>
      have hloaded : s'.loaded .stop = s.loaded .stop := by
        cases p with
        | thread => exact hother.1
        | stop => rw [hp'.1, hp.1]
      rw [hloops, heq, hloaded]
    | other es hes hloops hheld => rw [hloops, heq, (hheld .stop).1]

/-- The `Print`s have both held a count: no count will be loaded any more, and the count loaded
first is reported twice. -/
structure Doubled (s : State) (h : History) (o : Overlap) : Prop where
  overlap : h.overlap = some o
  cancelled : s.cancelled = true
  loaded : ∀ p, s.pc p ≠ some .entered
  pos : 0 < o.first
  sum : h.reported + both s.loaded + both s.taken = o.total + o.first
  each : ∀ p, s.loaded p + s.taken p = 0 ∨ o.first ≤ s.loaded p + s.taken p
  le : o.total ≤ h.total
  quiet : h.quiet = true → h.total = o.total

lemma pc_of_loaded {s : State} {p : Printer} (h : 0 < s.loaded p) :
    ∃ loops, s.pc p = some (.loaded loops) := by
  unfold State.loaded loadedCount at h
  split at h
  · case h_1 loops hpc => exact ⟨loops, hpc⟩
  · case h_2 => exact absurd h (Nat.lt_irrefl 0)

/-- The second of two loads that overlap -/
lemma Conserved.doubled {s s' : State} {h : History} {p : Printer} (hs : Conserved s h)
    (hw : h.window = s.loaded) (hctl : Control s') (hpc : s.pc p = some .entered)
    (hpc' : s'.pc p = some (.loaded s.loops)) (hother : s'.pc p.other = s.pc p.other)
    (hboth : 0 < s.loops.toNat ∧ 0 < h.window p.other) :
    Doubled s' (observe record h [.load p s.loops]) ⟨h.total, h.window p.other⟩ := by
  have hsum := hs.sum
  have hroom := hs.room
  rw [both_eq s.taken p] at hsum
  rw [both_eq s.loaded p] at hroom
  obtain ⟨first, hfirst⟩ := pc_of_loaded (show 0 < s.loaded p.other by rw [← hw]; exact hboth.2)
  obtain ⟨hp, htaken⟩ : Holds s p 0 0 := holds_of_pc hpc
  obtain ⟨hp', htaken'⟩ : Holds s' p s.loops.toNat 0 := holds_of_pc hpc'
  obtain ⟨ho, htakeno⟩ : Holds s p.other first.toNat 0 := holds_of_pc hfirst
  obtain ⟨ho', htakeno'⟩ : Holds s' p.other first.toNat 0 := holds_of_pc (hother.trans hfirst)
  have hwindow : h.window p.other = first.toNat := by rw [hw, ho]
  constructor
  · rw [overlap_load, if_pos hboth]
  · exact hctl.cancelled_of_pc hpc' (hother.trans hfirst)
  · intro q
    rcases Printer.eq_or_other p q with rfl | rfl
    · simp [hpc']
    · simp [hother, hfirst]
  · exact hboth.2
  · rw [both_eq s'.loaded p, both_eq s'.taken p]
    change h.reported + _ + _ = h.total + h.window p.other
    omega
  · intro q
    right
    change h.window p.other ≤ _
    rcases Printer.eq_or_other p q with rfl | rfl <;> omega
  · exact Nat.le_refl _
  · exact fun _ => rfl

/-- A `Print` goes on with what it holds, or has reported it. -/
lemma each_holds {s s' : State} {p : Printer} {first loaded taken loaded' taken' : ℕ}
    (heach : ∀ q, s.loaded q + s.taken q = 0 ∨ first ≤ s.loaded q + s.taken q)
    (hp : Holds s p loaded taken) (hp' : Holds s' p loaded' taken')
    (hother : Holds s' p.other (s.loaded p.other) (s.taken p.other))
    (hheld : loaded' + taken' = loaded + taken ∨ loaded' + taken' = 0) :
    ∀ q, s'.loaded q + s'.taken q = 0 ∨ first ≤ s'.loaded q + s'.taken q := by
  intro q
  have hq := heach q
  rcases Printer.eq_or_other p q with rfl | rfl
  · rw [hp.1, hp.2] at hq
    rw [hp'.1, hp'.2]
    omega
  · rw [hother.1, hother.2]
    exact hq

/-- The counts are only subtracted and reported. -/
lemma Doubled.counts {s s' : State} {h : History} {o : Overlap} {es : List Event}
    (hs : Doubled s h o) (hcounts : Counts s s' es) :
    (observe record h es).overlap = some o ∧
    (observe record h es).reported + both s'.loaded + both s'.taken = o.total + o.first ∧
    (∀ p, s'.loaded p + s'.taken p = 0 ∨ o.first ≤ s'.loaded p + s'.taken p) ∧
    o.total ≤ (observe record h es).total := by
  have hsum := hs.sum
  cases hcounts with
  | incr loops hloops hheld =>
    obtain ⟨hloaded, htaken⟩ := both_held hheld
    rw [hloaded, htaken]
    refine ⟨hs.overlap, hsum, fun p => ?_, Nat.le_trans hs.le (Nat.le_add_right _ _)⟩
    rw [(hheld p).1, (hheld p).2]
    exact hs.each p
  | load p hloops hpc hpc' hother => exact absurd hpc (hs.loaded p)
  | take p loops hloops hp hp' hother =>
    obtain ⟨hloaded, htaken⟩ := both_holds hp hp' hother
    refine ⟨hs.overlap, ?_, each_holds hs.each hp hp' hother (Or.inl (Nat.add_comm _ _)), hs.le⟩
    change h.reported + _ + _ = _
    omega
  | report p r hloops hp hp' hother =>
    obtain ⟨hloaded, htaken⟩ := both_holds hp hp' hother
    refine ⟨hs.overlap, ?_, each_holds hs.each hp hp' hother (Or.inr rfl), hs.le⟩
    change h.reported + r.loops.toNat + _ + _ = _
    omega
  | other es hes hloops hheld =>
    obtain ⟨hloaded, htaken⟩ := both_held hheld
    obtain ⟨htotal, hreported, -, hoverlap⟩ := observe_uncounted hes h
    rw [htotal, hreported, hoverlap, hloaded, htaken]
    refine ⟨hs.overlap, hsum, fun p => ?_, hs.le⟩
    rw [(hheld p).1, (hheld p).2]
    exact hs.each p

lemma ne_entered {s s' : State} {p : Printer} (hs : ∀ q, s.pc q ≠ some .entered)
    (hp : s'.pc p ≠ some .entered) (hother : s'.pc p.other = s.pc p.other) :
    ∀ q, s'.pc q ≠ some .entered := by
  intro q
  rcases Printer.eq_or_other p q with rfl | rfl
  · exact hp
  · rw [hother]
    exact hs p.other

/-- A cancelled thread enters no further `Print`, and `Stop` does not cancel it again. -/
lemma Doubled.control {s s' : State} {h : History} {o : Overlap} {es : List Event}
    (hs : Doubled s h o) (hctl : Control s) (hmoves : Moves s s' es) :
    s'.cancelled = true ∧ (∀ p, s'.pc p ≠ some .entered) ∧
      ((observe record h es).quiet = true → (observe record h es).total = o.total) := by
  have hc := hs.cancelled
  cases hmoves with
  | incr loops => exact ⟨hc, hs.loaded, nofun⟩
  | exit ht _ => exact ⟨hc, ne_entered (p := .thread) hs.loaded (by simp [State.pc]) rfl, hs.quiet⟩
  | enter ht hnot => simp [hc] at hnot
  | load p hpc => exact absurd hpc (hs.loaded p)
  | take p loops hpc =>
    refine ⟨?_, ne_entered hs.loaded ?_ (pc_setPc_other _ _ p), hs.quiet⟩
    · rw [cancelled_setPc, hc]
    · simp [pc_setPc_self]
  | crash => exact ⟨hc, hs.loaded, hs.quiet⟩
  | report p r now hpc =>
    refine ⟨?_, ne_entered hs.loaded ?_ (pc_setPc_other _ _ p), hs.quiet⟩
    · rw [cancelled_setPc, hc]
    · simp [pc_setPc_self]
  | finish p stop hpc =>
    refine ⟨?_, ne_entered hs.loaded ?_ (pc_endPrint_other _ p), hs.quiet⟩
    · rw [cancelled_endPrint, hc]
    · simp [pc_endPrint_self]
  | call hidle hj => simp [hctl.cancelled, hidle, hj, StopPc.past] at hc
  | again hidle hj => exact ⟨hc, hs.loaded, hs.quiet⟩
  | cancel hcancelling =>
    simp [hctl.cancelled, hcancelling, hctl.joinable_of_cancelling hcancelling, StopPc.past] at hc
  | join hjoining ht =>
    exact ⟨hc, ne_entered (p := .stop) hs.loaded (by simp [State.pc]) rfl, hs.quiet⟩

/-- What holds in every reachable state -/
structure Inv (s : State) (h : History) : Prop where
  control : Control s
  stopped : h.stopped = true → s.joinable = false
  window : h.window = s.loaded
  counts : Conserved s h ∨ ∃ o, Doubled s h o

/-- Only a load makes the `Print`s overlap. -/
lemma Conserved.moves {s s' : State} {h : History} {es : List Event} (hs : Conserved s h)
    (hctl : Control s) (hw : h.window = s.loaded) (hmoves : Moves s s' es)
    (htotal : (observe record h es).total < 2 ^ 64) :
    Conserved s' (observe record h es) ∨ ∃ o, Doubled s' (observe record h es) o := by
  by_cases hoverlap : (observe record h es).overlap = none
  · left
    obtain ⟨hsum, hroom⟩ := hs.counts hw hmoves.counts htotal hoverlap
    exact ⟨hoverlap, hsum, hroom, hs.drained_moves hctl hmoves⟩
  · right
    cases hmoves.counts with
    | incr loops hloops hheld => exact absurd hs.overlap hoverlap
    | load p hloops hpc hpc' hother =>
      by_cases hboth : 0 < s.loops.toNat ∧ 0 < h.window p.other
      · exact ⟨_, hs.doubled hw (hctl.moves hmoves) hpc hpc' hother hboth⟩
      · rw [overlap_load, if_neg hboth] at hoverlap
        exact absurd hs.overlap hoverlap
    | take p loops hloops hp hp' hother => exact absurd hs.overlap hoverlap
    | report p r hloops hp hp' hother => exact absurd hs.overlap hoverlap
    | other es hes hloops hheld =>
      rw [(observe_uncounted hes h).2.2.2] at hoverlap
      exact absurd hs.overlap hoverlap

/-- `Stop` returns with the thread joined. -/
lemma stopped_moves {s s' : State} {h : History} {es : List Event}
    (hs : h.stopped = true → s.joinable = false) (hmoves : Moves s s' es) :
    (observe record h es).stopped = true → s'.joinable = false := by
  cases hmoves with
  | load p hpc => cases p <;> exact hs
  | take p loops hpc => cases p <;> exact hs
  | report p r now hpc => cases p <;> exact hs
  | finish p stop hpc => cases p <;> exact hs
  | join hjoining ht => exact fun _ => rfl
  | _ => exact hs

lemma Inv.moves {s s' : State} {h : History} {es : List Event} (hs : Inv s h)
    (hmoves : Moves s s' es) (htotal : (observe record h es).total < 2 ^ 64) :
    Inv s' (observe record h es) := by
  refine ⟨hs.control.moves hmoves, stopped_moves hs.stopped hmoves,
    window_counts hs.window hmoves.counts, ?_⟩
  rcases hs.counts with hc | ⟨o, ho⟩
  · exact hc.moves hs.control hs.window hmoves htotal
  · obtain ⟨hoverlap, hsum, heach, hle⟩ := ho.counts hmoves.counts
    obtain ⟨hcancelled, hloaded, hquiet⟩ := ho.control hs.control hmoves
    exact Or.inr ⟨o, hoverlap, hcancelled, hloaded, ho.pos, hsum, heach, hle, hquiet⟩

lemma inv_start (name : String) (now : ℤ) : Inv (perfStats name now) (history []) := by
  refine ⟨control_start name now, nofun, ?_, Or.inl ⟨rfl, rfl, Nat.le_refl 0, nofun⟩⟩
  funext p
  cases p <;> rfl

lemma total_le (h : History) (es : List Event) : h.total ≤ (observe record h es).total := by
  induction es generalizing h with
  | nil => exact Nat.le_refl _
  | cons e es ih =>
    apply Nat.le_trans _ (ih (record h e))
    cases e <;> simp [record]

theorem inv_run {trap : Bool} {name : String} {now : ℤ} {as : List Action} {s : State}
    {es : List Event} (hrun : run (step trap) (perfStats name now) as = some (s, es))
    (htotal : (history es).total < 2 ^ 64) : Inv s (history es) := by
  -- The sum passed to `Incr` only grows, so it is below the bound at every step before.
  have hinv := run_invariant (step trap) record (fun s h => h.total < 2 ^ 64 → Inv s h)
    (fun s h a s' es hs hstep hlt =>
      (hs (Nat.lt_of_le_of_lt (total_le h es) hlt)).moves (moves_of_step hstep) hlt)
    (fun _ => inv_start name now) hrun
  exact hinv htotal

lemma Inv.holds_of_stopped {s : State} {h : History} (hs : Inv s h) (hstopped : h.stopped = true)
    (p : Printer) : Holds s p 0 0 := by
  obtain ⟨hexited, hidle⟩ := hs.control.joined (hs.stopped hstopped)
  have hpc : s.pc p = none := by
    cases p with
    | thread => simp only [State.pc, hexited]
    | stop => simp only [State.pc, hidle]
  exact holds_of_pc hpc

lemma Conserved.accounts {s : State} {h : History} (hs : Conserved s h) (hinv : Inv s h) :
    Accounts h := by
  have hsum : s.loops.toNat + h.reported + (s.taken .thread + s.taken .stop) = h.total := hs.sum
  constructor
  · omega
  · intro hstopped hquiet
    have hloops := hs.drained hquiet (Or.inr (Or.inr (hinv.stopped hstopped)))
    have hthread := (hinv.holds_of_stopped hstopped .thread).2
    obtain ⟨hloaded, hstop⟩ := hinv.holds_of_stopped hstopped .stop
    omega

lemma Doubled.accounts_iff {s : State} {h : History} {o : Overlap} (hs : Doubled s h o)
    (hinv : Inv s h) : Accounts h ↔ Unreported s ∨ o.total + o.first ≤ h.total := by
  have hsum := hs.sum
  have hpos := hs.pos
  by_cases hu : Unreported s
  · apply iff_of_true _ (Or.inl hu)
    obtain ⟨p, hp⟩ := hu
    constructor
    · have heach := hs.each p
      have hle := hs.le
      rw [both_eq s.loaded p, both_eq s.taken p] at hsum
      omega
    · intro hstopped
      obtain ⟨hloaded, htaken⟩ := hinv.holds_of_stopped hstopped p
      omega
  · have hnone : ∀ p, s.loaded p + s.taken p = 0 := by
      intro p
      by_contra hp
      exact hu ⟨p, Nat.pos_of_ne_zero hp⟩
    have hreported : h.reported = o.total + o.first := by
      have hthread := hnone .thread
      have hstop := hnone .stop
      unfold both at hsum
      omega
    apply Iff.intro
    · intro haccounts
      have hle := haccounts.1
      right
      omega
    · intro hcovered
      have hle := hcovered.resolve_left hu
      constructor
      · omega
      · intro _ hquiet
        have htotal := hs.quiet hquiet
        omega

/-- In every reachable state, with less than `2 ^ 64` passed to `Incr`: the reported counts are at
most those passed to `Incr`, and equal to them when `Stop` has returned and no `Incr` has happened
since its call, exactly when the `Print`s have not both held a count, or one has not reported it
yet, or what was passed to `Incr` since makes up for it. -/
theorem perfStats_accounts_iff (trap : Bool) (name : String) (now : ℤ) (as : List Action)
    (s : State) (es : List Event) (hrun : run (step trap) (perfStats name now) as = some (s, es))
    (htotal : (history es).total < 2 ^ 64) : Accounts (history es) ↔ Covered s (history es) := by
  have hinv := inv_run hrun htotal
  rcases hinv.counts with hc | ⟨o, ho⟩
  · apply iff_of_true (hc.accounts hinv)
    intro o ho
    rw [hc.overlap] at ho
    cases ho
  · rw [ho.accounts_iff hinv]
    apply Iff.intro
    · intro h o' ho'
      rw [ho.overlap] at ho'
      cases ho'
      exact h
    · intro h
      exact h o ho.overlap

/-- Five loops reported by the thread and three by `Stop` -/
def separateRun : List Action :=
  [.incr 5, .wake, .print .thread 0, .print .thread 0, .print .thread 0, .print .thread 0, .incr 3,
    .stop, .stop, .print .stop 0, .print .stop 0, .print .stop 0, .print .stop 0, .wake, .stop]

theorem separateRun_accounts :
    ∃ s es, run (step true) (perfStats "unknown" 0) separateRun = some (s, es) ∧
      (history es).total = 8 ∧ (history es).stopped = true ∧ Accounts (history es) :=
  ⟨_, _, rfl, rfl, rfl,
    (perfStats_accounts_iff true "unknown" 0 separateRun _ _ rfl (by decide)).mpr nofun⟩

/-- Five loops, and `Stop` called while the thread is between its load and its `fetch_add` -/
def overlappingRun : List Action :=
  [.incr 5, .wake, .print .thread 0, .stop, .stop, .print .stop 0, .print .thread 0, .print .stop 0,
    .print .thread 0, .print .stop 0, .print .thread 0, .print .stop 0, .wake, .stop]

/-- The five loops are reported twice. -/
theorem overlappingRun_reports_twice :
    ∃ s es, run (step true) (perfStats "unknown" 0) overlappingRun = some (s, es) ∧
      (history es).total = 5 ∧ (history es).reported = 10 ∧ (history es).stopped = true ∧
      (history es).quiet = true :=
  ⟨_, _, rfl, rfl, rfl, rfl, rfl⟩

end CodeC.PerfStats
