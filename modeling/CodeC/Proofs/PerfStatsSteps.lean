import CodeC.PerfStats
import Mathlib.Logic.Function.Basic

/-!
# The steps of `PerfStats`

What a step does to the control points of `Stop` and of the thread, and what it does to `loops_` and
to the counts that the two `Print`s hold between their load and their report.
-/

namespace CodeC.PerfStats
open Library

/-- The steps of `step` by what they do. The text of a line and `start_` are not kept. -/
inductive Moves (s : State) : State → List Event → Prop
  | incr (loops : UInt64) : Moves s { s with loops := s.loops + loops } [.incr loops]
  | exit (ht : s.thread = .sleeping) (hc : s.cancelled = true) :
      Moves s { s with thread := .exited } []
  | enter (ht : s.thread = .sleeping) (hc : s.cancelled = false) :
      Moves s { s with thread := .printing .entered } []
  | load (p : Printer) (hpc : s.pc p = some .entered) :
      Moves s (s.setPc (.loaded s.loops) p) [.load p s.loops]
  | take (p : Printer) (loops : UInt64) (hpc : s.pc p = some (.loaded loops)) :
      Moves s ({ s with loops := s.loops + -loops }.setPc (.taken loops) p) [.take p loops]
  | crash : Moves s { s with crashed := true } []
  | report (p : Printer) (r : Report) (now : ℤ) (hpc : s.pc p = some (.taken r.loops)) :
      Moves s (s.setPc (.written now) p) [.report p r]
  | finish (p : Printer) (stop : ℤ) (hpc : s.pc p = some (.written stop)) :
      Moves s ({ s with start := stop }.endPrint p) []
  | call (hs : s.stop = .idle) (hj : s.joinable = true) :
      Moves s { s with stop := .cancelling } [.stopping]
  | again (hs : s.stop = .idle) (hj : s.joinable = false) : Moves s s []
  | cancel (hs : s.stop = .cancelling) :
      Moves s { s with cancelled := true, stop := .printing .entered } []
  | join (hs : s.stop = .joining) (ht : s.thread = .exited) :
      Moves s { s with joinable := false, stop := .idle } [.stopped]

lemma moves_wake {s s' : State} {es : List Event} (h : wake s = some (s', es)) : Moves s s' es := by
  unfold wake at h
  by_cases ht : s.thread = .sleeping
  · rw [if_pos ht] at h
    by_cases hc : s.cancelled = true
    · rw [if_pos hc] at h
      cases h
      exact .exit ht hc
    · rw [if_neg hc] at h
      cases h
      exact .enter ht (eq_false_of_ne_true hc)
  · rw [if_neg ht] at h
    cases h

lemma moves_print (trap : Bool) {s : State} {p : Printer} {pc : PrintPc} (now : ℤ)
    (hpc : s.pc p = some pc) : Moves s (print trap s p now pc).1 (print trap s p now pc).2 := by
  cases pc with
  | entered => exact .load p hpc
  | loaded loops => exact .take p loops hpc
  | taken loops =>
    by_cases htrap : trap ∧ loops = 0
    · rw [print, if_pos htrap]
      exact .crash
    · rw [print, if_neg htrap]
      exact .report p _ now hpc
  | written stop => exact .finish p stop hpc

lemma moves_stop {s s' : State} {es : List Event} (h : stop s = some (s', es)) : Moves s s' es := by
  unfold stop at h
  split at h
  · case h_1 hs =>
    by_cases hj : s.joinable = true
    · rw [if_pos hj] at h
      cases h
      exact .call hs hj
    · rw [if_neg hj] at h
      cases h
      exact .again hs (eq_false_of_ne_true hj)
  · case h_2 hs =>
    cases h
    exact .cancel hs
  · case h_3 => cases h
  · case h_4 hs =>
    by_cases ht : s.thread = .exited
    · rw [if_pos ht] at h
      cases h
      exact .join hs ht
    · rw [if_neg ht] at h
      cases h

theorem moves_of_step {trap : Bool} {s s' : State} {a : Action} {es : List Event}
    (h : step trap s a = some (s', es)) : Moves s s' es := by
  unfold step at h
  by_cases hcrash : s.crashed = true
  · rw [if_pos hcrash] at h
    cases h
  · rw [if_neg hcrash] at h
    cases a with
    | incr loops =>
      cases h
      exact .incr loops
    | wake => exact moves_wake h
    | print p now =>
      obtain ⟨pc, hpc, hprint⟩ := Option.map_eq_some_iff.mp h
      have hmoves := moves_print trap now hpc
      rw [hprint] at hmoves
      exact hmoves
    | stop => exact moves_stop h

def Printer.other : Printer → Printer
  | .thread => .stop
  | .stop => .thread

lemma Printer.eq_or_other (p q : Printer) : q = p ∨ q = p.other := by
  cases p <;> cases q <;> simp [Printer.other]

lemma Printer.other_ne (p : Printer) : p.other ≠ p := by
  cases p <;> simp [Printer.other]

lemma pc_thread_iff {s : State} {pc : PrintPc} :
    s.pc .thread = some pc ↔ s.thread = .printing pc := by
  cases ht : s.thread <;> simp [State.pc, ht]

lemma pc_stop_iff {s : State} {pc : PrintPc} : s.pc .stop = some pc ↔ s.stop = .printing pc := by
  cases hs : s.stop <;> simp [State.pc, hs]

section setPc

variable (s : State) (pc : PrintPc) (p : Printer)

lemma loops_setPc : (s.setPc pc p).loops = s.loops := by
  cases p <;> rfl

lemma pc_setPc_self : (s.setPc pc p).pc p = some pc := by
  cases p <;> rfl

lemma pc_setPc_other : (s.setPc pc p).pc p.other = s.pc p.other := by
  cases p <;> rfl

lemma cancelled_setPc : (s.setPc pc p).cancelled = s.cancelled := by
  cases p <;> rfl

lemma cancelled_endPrint : (s.endPrint p).cancelled = s.cancelled := by
  cases p <;> rfl

lemma loops_endPrint : (s.endPrint p).loops = s.loops := by
  cases p <;> rfl

lemma pc_endPrint_self : (s.endPrint p).pc p = none := by
  cases p <;> rfl

lemma pc_endPrint_other : (s.endPrint p).pc p.other = s.pc p.other := by
  cases p <;> rfl

end setPc

/-- The count that is loaded and still in `loops_` -/
def loadedCount : Option PrintPc → ℕ
  | some (.loaded loops) => loops.toNat
  | _ => 0

/-- The count that is subtracted and not yet reported -/
def takenCount : Option PrintPc → ℕ
  | some (.taken loops) => loops.toNat
  | _ => 0

def State.loaded (s : State) (p : Printer) : ℕ := loadedCount (s.pc p)

def State.taken (s : State) (p : Printer) : ℕ := takenCount (s.pc p)

def Holds (s : State) (p : Printer) (loaded taken : ℕ) : Prop :=
  s.loaded p = loaded ∧ s.taken p = taken

lemma holds_of_pc {s : State} {p : Printer} {pc : Option PrintPc} (hpc : s.pc p = pc) :
    Holds s p (loadedCount pc) (takenCount pc) := by
  subst hpc
  exact ⟨rfl, rfl⟩

lemma holds_same {s s' : State} {p : Printer} (hpc : s'.pc p = s.pc p) :
    Holds s' p (s.loaded p) (s.taken p) :=
  holds_of_pc hpc

/-- Nothing is counted, loaded, subtracted or reported. -/
def Uncounted (es : List Event) : Prop := es = [] ∨ es = [.stopping] ∨ es = [.stopped]

/-- What a step does to `loops_` and to the counts held by the `Print`s -/
inductive Counts (s s' : State) : List Event → Prop
  | incr (loops : UInt64) (hloops : s'.loops = s.loops + loops)
      (hheld : ∀ p, Holds s' p (s.loaded p) (s.taken p)) : Counts s s' [.incr loops]
  | load (p : Printer) (hloops : s'.loops = s.loops) (hpc : s.pc p = some .entered)
      (hpc' : s'.pc p = some (.loaded s.loops)) (hother : s'.pc p.other = s.pc p.other) :
      Counts s s' [.load p s.loops]
  | take (p : Printer) (loops : UInt64) (hloops : s'.loops = s.loops + -loops)
      (hp : Holds s p loops.toNat 0) (hp' : Holds s' p 0 loops.toNat)
      (hother : Holds s' p.other (s.loaded p.other) (s.taken p.other)) :
      Counts s s' [.take p loops]
  | report (p : Printer) (r : Report) (hloops : s'.loops = s.loops)
      (hp : Holds s p 0 r.loops.toNat) (hp' : Holds s' p 0 0)
      (hother : Holds s' p.other (s.loaded p.other) (s.taken p.other)) :
      Counts s s' [.report p r]
  | other (es : List Event) (hes : Uncounted es) (hloops : s'.loops = s.loops)
      (hheld : ∀ p, Holds s' p (s.loaded p) (s.taken p)) : Counts s s' es

/-- A step by which `p` enters or leaves `Print`, or which it takes outside -/
lemma counts_outside {s s' : State} {es : List Event} (hes : Uncounted es)
    (hloops : s'.loops = s.loops) {p : Printer} (hp : Holds s p 0 0) (hp' : Holds s' p 0 0)
    (hother : s'.pc p.other = s.pc p.other) : Counts s s' es := by
  apply Counts.other es hes hloops
  intro q
  rcases Printer.eq_or_other p q with rfl | rfl
  · rw [hp.1, hp.2]
    exact hp'
  · exact holds_same hother

theorem Moves.counts {s s' : State} {es : List Event} (hmoves : Moves s s' es) :
    Counts s s' es := by
  cases hmoves with
  | incr loops => exact .incr loops rfl fun _ => holds_same rfl
  | exit ht hc =>
    have hpc : s.pc .thread = none := by simp only [State.pc, ht]
    exact counts_outside (p := .thread) (Or.inl rfl) rfl (holds_of_pc hpc) (holds_of_pc rfl) rfl
  | enter ht hc =>
    have hpc : s.pc .thread = none := by simp only [State.pc, ht]
    exact counts_outside (p := .thread) (Or.inl rfl) rfl (holds_of_pc hpc)
      (holds_of_pc (pc_setPc_self s .entered .thread)) rfl
  | load p hpc =>
    exact .load p (loops_setPc s _ p) hpc (pc_setPc_self s _ p) (pc_setPc_other s _ p)
  | take p loops hpc =>
    exact .take p loops (loops_setPc _ _ p) (holds_of_pc hpc) (holds_of_pc (pc_setPc_self _ _ p))
      (holds_same (pc_setPc_other _ _ p))
  | crash => exact .other [] (Or.inl rfl) rfl fun _ => holds_same rfl
  | report p r now hpc =>
    exact .report p r (loops_setPc s _ p) (holds_of_pc hpc) (holds_of_pc (pc_setPc_self s _ p))
      (holds_same (pc_setPc_other s _ p))
  | finish p stop hpc =>
    exact counts_outside (Or.inl rfl) (loops_endPrint _ p) (holds_of_pc hpc)
      (holds_of_pc (pc_endPrint_self _ p)) (pc_endPrint_other _ p)
  | call hidle hj =>
    have hpc : s.pc .stop = none := by simp only [State.pc, hidle]
    exact counts_outside (p := .stop) (Or.inr (Or.inl rfl)) rfl (holds_of_pc hpc) (holds_of_pc rfl)
      rfl
  | again hidle hj => exact .other [] (Or.inl rfl) rfl fun _ => holds_same rfl
  | cancel hcancelling =>
    have hpc : s.pc .stop = none := by simp only [State.pc, hcancelling]
    exact counts_outside (p := .stop) (Or.inl rfl) rfl (holds_of_pc hpc)
      (holds_of_pc (pc_setPc_self { s with cancelled := true } .entered .stop)) rfl
  | join hjoining ht =>
    have hpc : s.pc .stop = none := by simp only [State.pc, hjoining]
    exact counts_outside (p := .stop) (Or.inr (Or.inr rfl)) rfl (holds_of_pc hpc) (holds_of_pc rfl)
      rfl

/-- `Stop` has cancelled the thread and not returned. -/
def StopPc.past : StopPc → Bool
  | .printing _ => true
  | .joining => true
  | _ => false

/-- The thread is cancelled from the `Print` of `Stop` on, and joined when it has ended. -/
structure Control (s : State) : Prop where
  cancelled : s.cancelled = (s.stop.past || !s.joinable)
  joined : s.joinable = false → s.thread = .exited ∧ s.stop = .idle

lemma Control.joinable_of_pc {s : State} (hs : Control s) {p : Printer} {pc : PrintPc}
    (hpc : s.pc p = some pc) : s.joinable = true := by
  by_contra hj
  have hjoined := hs.joined (eq_false_of_ne_true hj)
  cases p with
  | thread => simp [pc_thread_iff, hjoined.1] at hpc
  | stop => simp [pc_stop_iff, hjoined.2] at hpc

lemma Control.joinable_of_cancelling {s : State} (hs : Control s)
    (hcancelling : s.stop = .cancelling) : s.joinable = true := by
  by_contra hj
  have hidle := (hs.joined (eq_false_of_ne_true hj)).2
  rw [hcancelling] at hidle
  cases hidle

lemma past_of_pc {s : State} {pc : PrintPc} (hpc : s.pc .stop = some pc) : s.stop.past = true := by
  rw [pc_stop_iff.mp hpc]
  rfl

/-- The thread is cancelled when both callers are in `Print`. -/
lemma Control.cancelled_of_pc {s : State} (hs : Control s) {p : Printer} {pc pc' : PrintPc}
    (hpc : s.pc p = some pc) (hother : s.pc p.other = some pc') : s.cancelled = true := by
  have hpast : s.stop.past = true := by
    cases p with
    | thread => exact past_of_pc hother
    | stop => exact past_of_pc hpc
  rw [hs.cancelled, hpast]
  rfl

/-- The steps of `Print` do not change what `Stop` has done. -/
lemma Control.print_step {s s' : State} (hs : Control s) {p : Printer} {pc : PrintPc}
    (hpc : s.pc p = some pc) (hjoinable : s'.joinable = s.joinable)
    (hcancelled : s'.cancelled = s.cancelled) (hpast : s'.stop.past = s.stop.past) :
    Control s' := by
  constructor
  · rw [hcancelled, hpast, hjoinable]
    exact hs.cancelled
  · intro hj
    rw [hjoinable, hs.joinable_of_pc hpc] at hj
    cases hj

lemma Control.setPc {s : State} (hs : Control s) {p : Printer} {pc : PrintPc}
    (hpc : s.pc p = some pc) (pc' : PrintPc) : Control (s.setPc pc' p) := by
  cases p with
  | thread => exact hs.print_step hpc rfl rfl rfl
  | stop => exact hs.print_step hpc rfl rfl (past_of_pc hpc).symm

lemma Control.endPrint {s : State} (hs : Control s) {p : Printer} {pc : PrintPc}
    (hpc : s.pc p = some pc) : Control (s.endPrint p) := by
  cases p with
  | thread => exact hs.print_step hpc rfl rfl rfl
  | stop => exact hs.print_step hpc rfl rfl (past_of_pc hpc).symm

lemma control_start (name : String) (now : ℤ) : Control (perfStats name now) := ⟨rfl, nofun⟩

lemma Control.moves {s s' : State} {es : List Event} (hs : Control s) (hmoves : Moves s s' es) :
    Control s' := by
  cases hmoves with
  | incr loops => exact ⟨hs.cancelled, hs.joined⟩
  | exit ht hc => exact ⟨hs.cancelled, fun hj => ⟨rfl, (hs.joined hj).2⟩⟩
  | enter ht hc =>
    refine ⟨hs.cancelled, fun hj => ?_⟩
    have hexited := (hs.joined hj).1
    rw [ht] at hexited
    cases hexited
  | load p hpc => exact hs.setPc hpc _
  | take p loops hpc =>
    have hsub : Control { s with loops := s.loops + -loops } := ⟨hs.cancelled, hs.joined⟩
    exact hsub.setPc hpc _
  | crash => exact ⟨hs.cancelled, hs.joined⟩
  | report p r now hpc => exact hs.setPc hpc _
  | finish p stop hpc =>
    have hstart : Control { s with start := stop } := ⟨hs.cancelled, hs.joined⟩
    exact hstart.endPrint hpc
  | call hidle hj =>
    have hc := hs.cancelled
    rw [hidle] at hc
    exact ⟨hc, fun hnot => nomatch hj.symm.trans hnot⟩
  | again hidle hj => exact hs
  | cancel hcancelling =>
    have hj := hs.joinable_of_cancelling hcancelling
    exact ⟨rfl, fun hnot => nomatch hj.symm.trans hnot⟩
  | join hjoining ht =>
    have hc := hs.cancelled
    rw [hjoining] at hc
    exact ⟨hc, fun _ => ⟨ht, rfl⟩⟩

end CodeC.PerfStats
