import CodeC.Proofs.AeLoopTable
import CodeC.Library.Bits

/-!
# Handlers of the event loop

The purpose of the table is a partial map from a descriptor and a direction to a handler, with one
pointer for each descriptor. The table refines this map in every run, and a handler is called only
when the map has it for the direction that has fired.
-/

namespace CodeC.AeLoop
open Library

variable {π δ : Type}

structure Handlers (π δ : Type) where
  handler : ℕ → Direction → Option π
  data : ℕ → Option δ

def Direction.bit : Direction → BitVec 32
  | .reading => aeReadable
  | .writing => aeWritable

def Handlers.empty : Handlers π δ := ⟨fun _ _ => none, fun _ => none⟩

def Handlers.register (h : Handlers π δ) (fd : ℕ) (mask : BitVec 32) (proc : π) (clientData : δ) :
    Handlers π δ :=
  ⟨fun i d => if i = fd ∧ mask &&& d.bit ≠ 0#32 then some proc else h.handler i d,
    Function.update h.data fd (some clientData)⟩

def Handlers.unregister (h : Handlers π δ) (fd : ℕ) (mask : BitVec 32) : Handlers π δ :=
  { h with handler := fun i d => if i = fd ∧ mask &&& d.bit ≠ 0#32 then none else h.handler i d }

def Handlers.record (h : Handlers π δ) : Event π δ → Handlers π δ
  | .created fd mask proc clientData true => h.register fd mask proc clientData
  | .created _ _ _ _ false => h
  | .deleted fd mask => h.unregister fd mask
  | .call _ _ _ _ _ => h

/-- The handlers after the events `es` -/
def handlersOf (es : List (Event π δ)) : Handlers π δ := observe Handlers.record Handlers.empty es

def Direction.index : Direction → ℕ
  | .reading => 0
  | .writing => 1

lemma and_bit_ne_zero_iff (mask : BitVec 32) (d : Direction) :
    mask &&& d.bit ≠ 0#32 ↔ mask.getLsbD d.index = true := by
  cases d with
  | reading => exact and_twoPow_ne_zero_iff mask (show 0 < 32 by omega)
  | writing => exact and_twoPow_ne_zero_iff mask (show 1 < 32 by omega)

lemma or_and_bit (a b : BitVec 32) (d : Direction) :
    (a ||| b) &&& d.bit ≠ 0#32 ↔ a &&& d.bit ≠ 0#32 ∨ b &&& d.bit ≠ 0#32 := by
  simp only [and_bit_ne_zero_iff, BitVec.getLsbD_or, Bool.or_eq_true]

lemma and_not_and_bit (a b : BitVec 32) (d : Direction) :
    (a &&& ~~~b) &&& d.bit ≠ 0#32 ↔ a &&& d.bit ≠ 0#32 ∧ ¬b &&& d.bit ≠ 0#32 := by
  have hindex : d.index < 32 := by cases d <;> decide
  simp [and_bit_ne_zero_iff, hindex]

lemma ne_none_of_bit {mask : BitVec 32} {d : Direction} (h : mask &&& d.bit ≠ 0#32) :
    mask ≠ aeNone := by
  rintro rfl
  exact h BitVec.zero_and

def FileEvent.proc (fe : FileEvent π δ) : Direction → Option π
  | .reading => fe.rfileProc
  | .writing => fe.wfileProc

/-- The entry of one descriptor stands for its handlers. -/
structure Stands (fe : FileEvent π δ) (handler : Direction → Option π) (data : Option δ) : Prop where
  handler : ∀ d, handler d = if fe.mask &&& d.bit ≠ 0#32 then fe.proc d else none
  stored : ∀ d, fe.mask &&& d.bit ≠ 0#32 → fe.proc d ≠ none
  data : fe.mask ≠ aeNone → fe.clientData = data

lemma proc_register (fe : FileEvent π δ) (mask : BitVec 32) (proc : π) (clientData : δ)
    (d : Direction) :
    (fe.register mask proc clientData).proc d =
      if mask &&& d.bit ≠ 0#32 then some proc else fe.proc d := by
  cases d <;> rfl

lemma Stands.register {fe : FileEvent π δ} {handler : Direction → Option π} {data : Option δ}
    (h : Stands fe handler data) (mask : BitVec 32) (proc : π) (clientData : δ) :
    Stands (fe.register mask proc clientData)
      (fun d => if mask &&& d.bit ≠ 0#32 then some proc else handler d) (some clientData) := by
  have hmask : (fe.register mask proc clientData).mask = fe.mask ||| mask := rfl
  refine ⟨?_, ?_, fun _ => rfl⟩
  · intro d
    rw [proc_register, hmask]
    by_cases hm : mask &&& d.bit ≠ 0#32
    · rw [if_pos hm, if_pos hm, if_pos ((or_and_bit _ _ d).mpr (Or.inr hm))]
    · rw [if_neg hm, if_neg hm, h.handler d]
      by_cases hf : fe.mask &&& d.bit ≠ 0#32
      · rw [if_pos hf, if_pos ((or_and_bit _ _ d).mpr (Or.inl hf))]
      · rw [if_neg hf, if_neg]
        intro hor
        exact ((or_and_bit _ _ d).mp hor).elim hf hm
  · intro d hd
    rw [proc_register]
    by_cases hm : mask &&& d.bit ≠ 0#32
    · rw [if_pos hm]
      exact Option.some_ne_none proc
    · rw [if_neg hm]
      exact h.stored d (((or_and_bit _ _ d).mp hd).resolve_right hm)

lemma Stands.unregister {fe : FileEvent π δ} {handler : Direction → Option π} {data : Option δ}
    (h : Stands fe handler data) (hused : fe.mask ≠ aeNone) (mask : BitVec 32) :
    Stands (fe.unregister mask) (fun d => if mask &&& d.bit ≠ 0#32 then none else handler d) data := by
  have hmask : (fe.unregister mask).mask = fe.mask &&& ~~~mask := rfl
  refine ⟨?_, ?_, fun _ => h.data hused⟩
  · intro d
    have hproc : (fe.unregister mask).proc d = fe.proc d := by cases d <;> rfl
    rw [hproc, hmask]
    by_cases hm : mask &&& d.bit ≠ 0#32
    · rw [if_pos hm, if_neg]
      intro hand
      exact ((and_not_and_bit _ _ d).mp hand).2 hm
    · rw [if_neg hm, h.handler d]
      by_cases hf : fe.mask &&& d.bit ≠ 0#32
      · rw [if_pos hf, if_pos ((and_not_and_bit _ _ d).mpr ⟨hf, hm⟩)]
      · rw [if_neg hf, if_neg]
        intro hand
        exact hf ((and_not_and_bit _ _ d).mp hand).1
  · intro d hd
    have hproc : (fe.unregister mask).proc d = fe.proc d := by cases d <;> rfl
    rw [hproc]
    exact h.stored d ((and_not_and_bit _ _ d).mp hd).1

/-- An entry without a mask stands for no handler. -/
lemma stands_none {fe : FileEvent π δ} (hfe : fe.mask = aeNone) {handler : Direction → Option π}
    (hnone : ∀ d, handler d = none) (data : Option δ) : Stands fe handler data := by
  have hbit : ∀ d : Direction, ¬fe.mask &&& d.bit ≠ 0#32 := fun d hd => ne_none_of_bit hd hfe
  refine ⟨?_, ?_, ?_⟩
  · intro d
    rw [if_neg (hbit d), hnone d]
  · intro d hd
    exact absurd hd (hbit d)
  · intro hne
    exact absurd hfe hne

structure Refines (l : EventLoop π δ) (h : Handlers π δ) : Prop where
  stands : ∀ fd < l.setsize, Stands (l.events fd) (h.handler fd) (h.data fd)
  outside : ∀ fd, l.setsize ≤ fd → ∀ d, h.handler fd d = none

lemma refines_create (setsize : ℕ) (memory : ℕ → FileEvent π δ) (opened : ℕ → Bool) :
    Refines (aeCreateEventLoop setsize memory opened) Handlers.empty := by
  refine ⟨?_, fun fd _ d => rfl⟩
  intro fd hfd
  change fd < setsize at hfd
  apply stands_none _ (fun d => rfl)
  simp [aeCreateEventLoop, hfd]

/-- No handler without a mask -/
lemma Refines.handler_eq_none {l : EventLoop π δ} {h : Handlers π δ} (href : Refines l h) {fd : ℕ}
    (hnone : fd < l.setsize → (l.events fd).mask = aeNone) (d : Direction) : h.handler fd d = none := by
  by_cases hfd : fd < l.setsize
  · rw [(href.stands fd hfd).handler d, if_neg]
    intro hd
    exact ne_none_of_bit hd (hnone hfd)
  · exact href.outside fd (by omega) d

lemma Refines.create {l : EventLoop π δ} {h : Handlers π δ} (href : Refines l h) (fd : ℕ)
    (mask : BitVec 32) (proc : π) (clientData : δ) (refused : Bool) :
    Refines (aeCreateFileEvent l fd mask proc clientData refused).1
      (h.record (.created fd mask proc clientData
        (aeCreateFileEvent l fd mask proc clientData refused).2)) := by
  rcases aeCreateFileEvent_cases l fd mask proc clientData refused with heq | ⟨hfd, -, -, heq⟩
  · rw [heq]
    exact href
  · rw [heq]
    refine ⟨?_, ?_⟩
    · intro fd' hfd'
      change Stands (Function.update l.events fd _ fd')
        (fun d => if fd' = fd ∧ mask &&& d.bit ≠ 0#32 then some proc else h.handler fd' d)
        (Function.update h.data fd (some clientData) fd')
      by_cases heq : fd' = fd
      · subst heq
        rw [Function.update_self, Function.update_self]
        simp only [true_and]
        exact (href.stands fd' hfd').register mask proc clientData
      · rw [Function.update_of_ne heq, Function.update_of_ne heq]
        simp only [heq, false_and, if_false]
        exact href.stands fd' hfd'
    · intro fd' hfd' d
      change l.setsize ≤ fd' at hfd'
      change (if fd' = fd ∧ mask &&& d.bit ≠ 0#32 then some proc else h.handler fd' d) = none
      rw [if_neg (fun hc => by omega)]
      exact href.outside fd' hfd' d

lemma Refines.delete {l : EventLoop π δ} {h : Handlers π δ} (href : Refines l h) (fd : ℕ)
    (mask : BitVec 32) (refused : Bool) :
    Refines (aeDeleteFileEvent l fd mask refused) (h.record (.deleted fd mask)) := by
  by_cases hin : fd < l.setsize ∧ (l.events fd).mask ≠ aeNone
  · rw [aeDeleteFileEvent_eq hin.1 hin.2]
    refine ⟨?_, ?_⟩
    · intro fd' hfd'
      change Stands (Function.update l.events fd _ fd')
        (fun d => if fd' = fd ∧ mask &&& d.bit ≠ 0#32 then none else h.handler fd' d) (h.data fd')
      by_cases heq : fd' = fd
      · subst heq
        rw [Function.update_self]
        simp only [true_and]
        exact (href.stands fd' hfd').unregister hin.2 mask
      · rw [Function.update_of_ne heq]
        simp only [heq, false_and, if_false]
        exact href.stands fd' hfd'
    · intro fd' hfd' d
      change (if fd' = fd ∧ mask &&& d.bit ≠ 0#32 then none else h.handler fd' d) = none
      rw [href.outside fd' hfd' d, ite_self]
  · -- nothing is registered for the descriptor, in the table or in the map
    rw [aeDeleteFileEvent_noop hin]
    have hnone : ∀ d, h.handler fd d = none := by
      apply href.handler_eq_none
      intro hfd
      by_contra hne
      exact hin ⟨hfd, hne⟩
    have hsame : h.record (.deleted fd mask) = h := by
      have hhandler : (fun i d => if i = fd ∧ mask &&& d.bit ≠ 0#32 then none else h.handler i d) =
          h.handler := by
        funext i d
        by_cases hc : i = fd ∧ mask &&& d.bit ≠ 0#32
        · rw [if_pos hc, hc.1, hnone d]
        · rw [if_neg hc]
      change Handlers.mk _ h.data = h
      rw [hhandler]
    rw [hsame]
    exact href

lemma Refines.resize {l : EventLoop π δ} {h : Handlers π δ} (hsync : Synced l) (href : Refines l h)
    (setsize : ℕ) (memory : ℕ → FileEvent π δ) :
    Refines (aeResizeSetSize l setsize memory).1 h := by
  refine ⟨?_, ?_⟩
  · intro fd hfd
    rcases aeResizeSetSize_entry hsync setsize memory hfd with ⟨hin, heq⟩ | ⟨hnone, hold⟩
    · rw [heq]
      exact href.stands fd hin
    · exact stands_none hnone (href.handler_eq_none hold) _
  · intro fd hfd
    obtain ⟨-, -, hlt⟩ := aeResizeSetSize_frame hsync setsize memory
    apply href.handler_eq_none
    intro hin
    by_contra hne
    have hle := hsync.maxfd.le fd hin hne
    omega

/-- The program registers no empty mask and closes no descriptor that is registered, and the kernel
does not refuse to take a descriptor off its list. -/
def Tidy (s : State π δ) : Action π δ → Prop
  | .create _ mask _ _ _ => mask ≠ aeNone
  | .delete _ _ refused => refused = false
  | .close fd => aeGetFileEvents s.loop fd = aeNone
  | _ => True

/-- The fired event that is being handled and those that are left -/
def Pc.pending : Pc → List FiredEvent
  | .idle => []
  | .dispatching rest => rest
  | .reading f rest => f :: rest
  | .writing f rest => f :: rest

/-- The call is one of a handler that the map has, for a direction that has fired. -/
def CallOk (h : Handlers π δ) : Event π δ → Prop
  | .call d proc fd clientData mask =>
    (∃ p, proc = some p ∧ h.handler fd d = some p) ∧ clientData = h.data fd ∧ mask &&& d.bit ≠ 0#32
  | _ => True

structure Inv (s : State π δ) (h : Handlers π δ) : Prop where
  synced : Synced s.loop
  refines : Refines s.loop h
  pending : ∀ f ∈ s.pc.pending, f.fd < s.loop.setsize

/-- A call that `aeProcessEvents` makes, read off the entry and the mask that has fired -/
lemma callOk_of_bits {l : EventLoop π δ} {h : Handlers π δ} (href : Refines l h) {f : FiredEvent}
    (hfd : f.fd < l.setsize) (d : Direction)
    (hbits : (l.events f.fd).mask &&& f.mask &&& d.bit ≠ 0#32) :
    CallOk h (.call d ((l.events f.fd).proc d) f.fd (l.events f.fd).clientData f.mask) := by
  have hand : (l.events f.fd).mask &&& d.bit ≠ 0#32 ∧ f.mask &&& d.bit ≠ 0#32 := by
    rw [and_bit_ne_zero_iff, BitVec.getLsbD_and, Bool.and_eq_true] at hbits
    simpa only [and_bit_ne_zero_iff] using hbits
  have hst := href.stands f.fd hfd
  obtain ⟨p, hp⟩ := Option.ne_none_iff_exists'.mp (hst.stored d hand.1)
  refine ⟨⟨p, hp, ?_⟩, hst.data (ne_none_of_bit hand.1), hand.2⟩
  rw [hst.handler d, if_pos hand.1, hp]

/-- A step emits one event at most, and a call is one of a handler that the map has. -/
def CallsOk (h : Handlers π δ) (es : List (Event π δ)) : Prop :=
  es = [] ∨ ∃ e, es = [e] ∧ CallOk h e

/-- The state after a step that only changes where the thread is -/
lemma Inv.setPc {s : State π δ} {h : Handlers π δ} (hinv : Inv s h) {pc : Pc}
    (hsub : ∀ f ∈ pc.pending, f ∈ s.pc.pending) : Inv { s with pc := pc } h :=
  ⟨hinv.synced, hinv.refines, fun f hf => hinv.pending f (hsub f hf)⟩

variable [DecidableEq π]

lemma Inv.dispatchWrite {s s' : State π δ} {h : Handlers π δ} {es : List (Event π δ)}
    (hinv : Inv s h) {f : FiredEvent} {rest : List FiredEvent}
    (hpending : ∀ g ∈ f :: rest, g ∈ s.pc.pending) (rfired : Bool)
    (hstep : dispatchWrite s rfired f rest = (s', es)) :
    Inv s' (observe Handlers.record h es) ∧ CallsOk h es := by
  unfold AeLoop.dispatchWrite at hstep
  dsimp only at hstep
  split_ifs at hstep with hcond
  · obtain ⟨rfl, rfl⟩ := Prod.mk.inj hstep
    have hfd := hinv.pending f (hpending f List.mem_cons_self)
    exact ⟨hinv.setPc hpending, Or.inr ⟨_, rfl,
      callOk_of_bits hinv.refines hfd .writing hcond.1⟩⟩
  · obtain ⟨rfl, rfl⟩ := Prod.mk.inj hstep
    exact ⟨hinv.setPc fun g hg => hpending g (List.mem_cons_of_mem f hg), Or.inl rfl⟩

/-- A step of the loop or of the program keeps the table, and what it calls is registered. -/
lemma Inv.step {s s' : State π δ} {h : Handlers π δ} {a : Action π δ} {es : List (Event π δ)}
    (hinv : Inv s h) (htidy : Tidy s a) (hstep : step s a = some (s', es)) :
    Inv s' (observe Handlers.record h es) ∧ CallsOk h es := by
  cases a with
  | create fd mask proc clientData refused =>
    simp only [AeLoop.step] at hstep
    split_ifs at hstep with hpc
    obtain ⟨rfl, rfl⟩ := Prod.mk.inj (Option.some.inj hstep)
    refine ⟨⟨hinv.synced.create fd htidy proc clientData refused,
      hinv.refines.create fd mask proc clientData refused, ?_⟩, Or.inr ⟨_, rfl, trivial⟩⟩
    intro f hf
    dsimp only
    rw [setsize_aeCreateFileEvent]
    exact hinv.pending f hf
  | delete fd mask refused =>
    simp only [AeLoop.step] at hstep
    split_ifs at hstep with hpc
    obtain ⟨rfl, rfl⟩ := Prod.mk.inj (Option.some.inj hstep)
    obtain rfl : refused = false := htidy
    refine ⟨⟨hinv.synced.delete fd mask, hinv.refines.delete fd mask false, ?_⟩,
      Or.inr ⟨_, rfl, trivial⟩⟩
    intro f hf
    dsimp only
    rw [setsize_aeDeleteFileEvent]
    exact hinv.pending f hf
  | resize setsize memory =>
    simp only [AeLoop.step] at hstep
    split_ifs at hstep with hpc
    obtain ⟨rfl, rfl⟩ := Prod.mk.inj (Option.some.inj hstep)
    refine ⟨⟨hinv.synced.resize setsize memory, hinv.refines.resize hinv.synced setsize memory, ?_⟩,
      Or.inl rfl⟩
    intro f hf
    rw [hpc] at hf
    cases hf
  | stop =>
    simp only [AeLoop.step] at hstep
    split_ifs at hstep with hpc
    obtain ⟨rfl, rfl⟩ := Prod.mk.inj (Option.some.inj hstep)
    exact ⟨⟨⟨⟨hinv.synced.maxfd, hinv.synced.outside, hinv.synced.opened⟩, hinv.synced.interest⟩,
      ⟨hinv.refines.stands, hinv.refines.outside⟩, hinv.pending⟩, Or.inl rfl⟩
  | «open» fd =>
    simp only [AeLoop.step] at hstep
    split_ifs at hstep with hpc
    obtain ⟨rfl, rfl⟩ := Prod.mk.inj (Option.some.inj hstep)
    exact ⟨⟨hinv.synced.open fd, ⟨hinv.refines.stands, hinv.refines.outside⟩, hinv.pending⟩, Or.inl rfl⟩
  | close fd =>
    simp only [AeLoop.step] at hstep
    split_ifs at hstep with hpc
    obtain ⟨rfl, rfl⟩ := Prod.mk.inj (Option.some.inj hstep)
    exact ⟨⟨hinv.synced.close htidy, ⟨hinv.refines.stands, hinv.refines.outside⟩, hinv.pending⟩,
      Or.inl rfl⟩
  | poll evs =>
    simp only [AeLoop.step] at hstep
    split_ifs at hstep with hcond
    obtain ⟨rfl, rfl⟩ := Prod.mk.inj (Option.some.inj hstep)
    refine ⟨⟨hinv.synced, hinv.refines, ?_⟩, Or.inl rfl⟩
    -- only what the interest list has is reported, and it has nothing outside the array
    intro f hf
    obtain ⟨e, he, rfl⟩ := List.mem_map.mp hf
    obtain ⟨ee, hee, -⟩ := hcond.2.2.2.2 e he
    by_contra hge
    have hnone := hinv.synced.outside e.fd (Nat.le_of_not_lt hge)
    rw [hnone] at hee
    cases hee
  | next =>
    simp only [AeLoop.step] at hstep
    split at hstep
    · case _ hpc =>
      obtain ⟨rfl, rfl⟩ := Prod.mk.inj (Option.some.inj hstep)
      exact ⟨hinv.setPc (by simp [Pc.pending]), Or.inl rfl⟩
    · case _ f rest hpc =>
      have hpending : ∀ g ∈ f :: rest, g ∈ s.pc.pending := by
        rw [hpc]
        exact fun g hg => hg
      have hdispatch := Option.some.inj hstep
      unfold dispatch at hdispatch
      dsimp only at hdispatch
      split_ifs at hdispatch with hcond
      · obtain ⟨rfl, rfl⟩ := Prod.mk.inj hdispatch
        have hfd := hinv.pending f (hpending f List.mem_cons_self)
        exact ⟨hinv.setPc hpending, Or.inr ⟨_, rfl, callOk_of_bits hinv.refines hfd .reading hcond⟩⟩
      · exact hinv.dispatchWrite hpending false hdispatch
    · cases hstep
  | ret =>
    simp only [AeLoop.step] at hstep
    split at hstep
    · case _ f rest hpc =>
      apply hinv.dispatchWrite _ true (Option.some.inj hstep)
      rw [hpc]
      exact fun g hg => hg
    · case _ f rest hpc =>
      obtain ⟨rfl, rfl⟩ := Prod.mk.inj (Option.some.inj hstep)
      refine ⟨hinv.setPc ?_, Or.inl rfl⟩
      intro g hg
      rw [hpc]
      exact List.mem_cons_of_mem f hg
    · cases hstep

/-- What a history keeps: the table refines the map of the events, and the calls were registered. -/
structure History (s : State π δ) (es : List (Event π δ)) : Prop where
  inv : Inv s (handlersOf es)
  calls : EachEvent (fun fs e => CallOk (handlersOf fs) e) es

lemma History.step {s s' : State π δ} {a : Action π δ} {es fs : List (Event π δ)} (h : History s es)
    (htidy : Tidy s a) (hstep : step s a = some (s', fs)) : History s' (es ++ fs) := by
  obtain ⟨hinv, hcalls⟩ := h.inv.step htidy hstep
  refine ⟨?_, h.calls.append ?_⟩
  · rw [handlersOf, observe_append]
    exact hinv
  · rcases hcalls with rfl | ⟨e, rfl, he⟩
    · exact eachEvent_nil _
    · apply eachEvent_singleton
      rwa [List.append_nil]

lemma history_run {setsize : ℕ} {memory : ℕ → FileEvent π δ} {opened : ℕ → Bool} {t : State π δ}
    {as : List (Action π δ)} {es : List (Event π δ)}
    (htidy : EachStep step (fun u _ a => Tidy u a) ⟨aeCreateEventLoop setsize memory opened, .idle⟩ as)
    (hrun : run step ⟨aeCreateEventLoop setsize memory opened, .idle⟩ as = some (t, es)) :
    History t es := by
  apply run_invariant_eachStep step (fun u _ a => Tidy u a) History _ htidy _ hrun
  · intro u fs a u' gs ha hu hstep
    exact hu.step ha hstep
  · refine ⟨⟨synced_create setsize memory opened, refines_create setsize memory opened, ?_⟩,
      eachEvent_nil _⟩
    intro f hf
    cases hf

/-- In every run of a program that registers no empty mask and closes no registered descriptor, and in
which the kernel refuses no deletion: `maxfd` is the last descriptor that is registered, and the interest
list of the kernel has exactly the registered ones with the events of their masks. The loop therefore
asks for the right operation: a further registration fails only for a descriptor that is not below the
size of the set or not open, or when the kernel refuses it, and a failed one changes nothing. -/
theorem loop_agrees_with_kernel (setsize : ℕ) (memory : ℕ → FileEvent π δ) (opened : ℕ → Bool)
    (t : State π δ) (as : List (Action π δ)) (es : List (Event π δ))
    (htidy : EachStep step (fun u _ a => Tidy u a) ⟨aeCreateEventLoop setsize memory opened, .idle⟩ as)
    (hrun : run step ⟨aeCreateEventLoop setsize memory opened, .idle⟩ as = some (t, es)) :
    Synced t.loop ∧ ∀ fd mask proc clientData refused,
      ((aeCreateFileEvent t.loop fd mask proc clientData refused).2 = true ↔
        fd < t.loop.setsize ∧ t.loop.epoll.opened fd = true ∧ refused = false) ∧
      ((aeCreateFileEvent t.loop fd mask proc clientData refused).2 = false →
        (aeCreateFileEvent t.loop fd mask proc clientData refused).1 = t.loop) := by
  have hsync := (history_run htidy hrun).inv.synced
  refine ⟨hsync, fun fd mask proc clientData refused =>
    ⟨aeCreateFileEvent_ok_iff hsync fd mask proc clientData refused, fun herr => ?_⟩⟩
  rcases aeCreateFileEvent_cases t.loop fd mask proc clientData refused with heq | ⟨-, -, -, heq⟩
  · rw [heq]
  · rw [heq] at herr
    cases herr

/-- A registration, an event, and from the handler a registration that the kernel refuses and one that
succeeds -/
def switchRun : List (Action ℕ ℕ) :=
  [.open 5, .create 5 aeReadable 7 1 false, .poll [⟨5, true, false, false, true⟩], .next,
    .delete 5 aeReadable false, .create 5 aeWritable 9 3 true, .create 5 aeWritable 8 2 false, .ret, .ret,
    .next]

/-- A loop of 16 entries over memory that is not initialised -/
def freshLoop : State ℕ ℕ :=
  ⟨aeCreateEventLoop 16 (fun _ => ⟨0#32, none, none, none⟩) (fun _ => false), .idle⟩

lemma switchRun_tidy : EachStep step (fun u _ a => Tidy u a) freshLoop switchRun :=
  eachStep_cons rfl trivial <| eachStep_cons rfl (show aeReadable ≠ aeNone by decide) <|
    eachStep_cons rfl trivial <| eachStep_cons rfl trivial <| eachStep_cons rfl rfl <|
    eachStep_cons rfl (show aeWritable ≠ aeNone by decide) <|
    eachStep_cons rfl (show aeWritable ≠ aeNone by decide) <| eachStep_cons rfl trivial <|
    eachStep_cons rfl trivial <| eachStep_cons rfl trivial <| eachStep_nil _ _ _

theorem loop_agrees_with_kernel_switch :
    ∃ t es, run step freshLoop switchRun = some (t, es) ∧ t.loop.maxfd = 5 ∧ Synced t.loop :=
  ⟨_, _, rfl, rfl,
    (loop_agrees_with_kernel 16 _ _ _ switchRun _ switchRun_tidy rfl).1⟩

/-- In every such run, whatever the handlers do apart from a resize of the set: a handler is called only
when it is registered for the descriptor and the direction at that moment, for a direction that has
fired, and with the pointer of the last registration of the descriptor. No stale event of a batch and no
uninitialised entry reaches a handler. -/
theorem loop_calls_registered_handlers (setsize : ℕ) (memory : ℕ → FileEvent π δ) (opened : ℕ → Bool)
    (t : State π δ) (as : List (Action π δ)) (es : List (Event π δ))
    (htidy : EachStep step (fun u _ a => Tidy u a) ⟨aeCreateEventLoop setsize memory opened, .idle⟩ as)
    (hrun : run step ⟨aeCreateEventLoop setsize memory opened, .idle⟩ as = some (t, es)) :
    EachEvent (fun fs e => CallOk (handlersOf fs) e) es ∧ Refines t.loop (handlersOf es) := by
  have h := history_run htidy hrun
  exact ⟨h.calls, h.inv.refines⟩

/-- The second handler is called at once, since the hang-up of the first event counts as writable. -/
theorem loop_calls_registered_handlers_switch :
    ∃ t es, run step freshLoop switchRun = some (t, es) ∧
      es = [.created 5 aeReadable 7 1 true, .call .reading (some 7) 5 (some 1) 3#32,
        .deleted 5 aeReadable, .created 5 aeWritable 9 3 false, .created 5 aeWritable 8 2 true,
        .call .writing (some 8) 5 (some 2) 3#32] ∧
      EachEvent (fun fs e => CallOk (handlersOf fs) e) es :=
  ⟨_, _, rfl, rfl, (loop_calls_registered_handlers 16 _ _ _ switchRun _ switchRun_tidy rfl).1⟩

end CodeC.AeLoop
