import CodeC.AeLoop
import Mathlib.Data.BitVec

/-!
# The table of file events

The fields of the loop and the interest list of the kernel describe one thing, which handler is
registered for which direction of which descriptor. `Sound` is what holds of the fields whatever the
kernel answers; `Synced` adds that the interest list is the one of the table, and every call of the
program keeps it unless the kernel refuses to take a descriptor off its list.
-/

namespace CodeC.AeLoop
open Library

variable {π δ : Type}

/-- What the kernel is asked to watch for a mask -/
def watched (mask : BitVec 32) : Option EpollEvents :=
  if mask = aeNone then none else some (epollEvents mask)

/-- `maxfd` is the last entry in use. -/
structure MaxfdOk (maxfd : ℤ) (setsize : ℕ) (events : ℕ → FileEvent π δ) : Prop where
  lt : maxfd < setsize
  used : maxfd = -1 ∨ ∃ fd : ℕ, maxfd = fd ∧ (events fd).mask ≠ aeNone
  le : ∀ fd < setsize, (events fd).mask ≠ aeNone → (fd : ℤ) ≤ maxfd

/-- An entry comes into use. -/
lemma MaxfdOk.enter {maxfd : ℤ} {setsize : ℕ} {events : ℕ → FileEvent π δ}
    (h : MaxfdOk maxfd setsize events) {fd : ℕ} (hfd : fd < setsize) {fe : FileEvent π δ}
    (hfe : fe.mask ≠ aeNone) : MaxfdOk (max maxfd fd) setsize (Function.update events fd fe) := by
  have hlt := h.lt
  refine ⟨by omega, Or.inr ?_, ?_⟩
  · by_cases hmax : maxfd ≤ fd
    · refine ⟨fd, max_eq_right hmax, ?_⟩
      rwa [Function.update_self]
    · rcases h.used with hnone | ⟨m, hm, hused⟩
      · omega
      · refine ⟨m, by omega, ?_⟩
        rwa [Function.update_of_ne (by omega)]
  · intro fd' hfd' hne
    by_cases heq : fd' = fd
    · omega
    · rw [Function.update_of_ne heq] at hne
      have hle := h.le fd' hfd' hne
      omega

/-- The loop for `maxfd` finds the last entry in use. -/
lemma lastUsed_spec (events : ℕ → FileEvent π δ) (n : ℕ) : MaxfdOk (lastUsed events n) n events := by
  induction n with
  | zero => exact ⟨by simp [lastUsed], Or.inl rfl, fun fd hfd => by omega⟩
  | succ n ih =>
    rw [lastUsed]
    by_cases hn : (events n).mask ≠ aeNone
    · rw [if_pos hn]
      exact ⟨by omega, Or.inr ⟨n, rfl, hn⟩, fun fd hfd _ => by omega⟩
    · rw [if_neg hn]
      have hlt := ih.lt
      refine ⟨by omega, ih.used, ?_⟩
      intro fd hfd hne
      have hfdn : fd ≠ n := by
        rintro rfl
        exact hn hne
      exact ih.le fd (by omega) hne

/-- An entry in use gets another mask, and the last entry is looked for when it was this one. -/
lemma MaxfdOk.leave {maxfd : ℤ} {setsize : ℕ} {events : ℕ → FileEvent π δ}
    (h : MaxfdOk maxfd setsize events) {fd : ℕ} (hused : (events fd).mask ≠ aeNone)
    (fe : FileEvent π δ) :
    MaxfdOk (if fd = maxfd ∧ (Function.update events fd fe fd).mask = aeNone then
      lastUsed (Function.update events fd fe) maxfd.toNat else maxfd) setsize
      (Function.update events fd fe) := by
  have hlt := h.lt
  rw [Function.update_self]
  -- no entry is in use that was not
  have hsub : ∀ fd', (Function.update events fd fe fd').mask ≠ aeNone →
      (events fd').mask ≠ aeNone := by
    intro fd' hne
    by_cases heq : fd' = fd
    · rwa [heq]
    · rwa [Function.update_of_ne heq] at hne
  by_cases hlast : fd = maxfd ∧ fe.mask = aeNone
  · rw [if_pos hlast]
    have hspec := lastUsed_spec (Function.update events fd fe) maxfd.toNat
    have hspec_lt := hspec.lt
    refine ⟨by omega, hspec.used, ?_⟩
    intro fd' hfd' hne
    have hle := h.le fd' hfd' (hsub fd' hne)
    have hne' : fd' ≠ fd := by
      rintro rfl
      rw [Function.update_self] at hne
      exact hne hlast.2
    exact hspec.le fd' (by omega) hne
  · rw [if_neg hlast]
    refine ⟨hlt, ?_, fun fd' hfd' hne => h.le fd' hfd' (hsub fd' hne)⟩
    rcases h.used with hnone | ⟨m, hm, hm_used⟩
    · exact Or.inl hnone
    · refine Or.inr ⟨m, hm, ?_⟩
      by_cases heq : m = fd
      · rw [heq, Function.update_self]
        intro hz
        exact hlast ⟨by omega, hz⟩
      · rwa [Function.update_of_ne heq]

/-- `maxfd` is right, the kernel watches nothing outside the array, and the entries in use are open. -/
structure Sound (l : EventLoop π δ) : Prop where
  maxfd : MaxfdOk l.maxfd l.setsize l.events
  outside : ∀ fd, l.setsize ≤ fd → l.epoll.interest fd = none
  opened : ∀ fd < l.setsize, (l.events fd).mask ≠ aeNone → l.epoll.opened fd = true

/-- The interest list has exactly the entries in use. -/
structure Synced (l : EventLoop π δ) : Prop extends Sound l where
  interest : ∀ fd < l.setsize, l.epoll.interest fd = watched (l.events fd).mask

lemma synced_create (setsize : ℕ) (memory : ℕ → FileEvent π δ) (opened : ℕ → Bool) :
    Synced (aeCreateEventLoop setsize memory opened) := by
  have hmask : ∀ fd < setsize, ((aeCreateEventLoop setsize memory opened).events fd).mask = aeNone := by
    intro fd hfd
    simp [aeCreateEventLoop, hfd]
  refine ⟨⟨⟨?_, Or.inl rfl, ?_⟩, fun fd _ => rfl, ?_⟩, ?_⟩
  · change (-1 : ℤ) < setsize
    omega
  · intro fd hfd hne
    exact absurd (hmask fd hfd) hne
  · intro fd hfd hne
    exact absurd (hmask fd hfd) hne
  · intro fd hfd
    rw [hmask fd hfd]
    rfl

/-- `epoll_ctl` for `fd` changes the interest list there at most. -/
structure CtlFrame (ep ep' : Epoll) (fd : ℕ) : Prop where
  opened : ep'.opened = ep.opened
  other : ∀ fd' ≠ fd, ep'.interest fd' = ep.interest fd'

lemma ctlFrame_refl (ep : Epoll) (fd : ℕ) : CtlFrame ep ep fd := ⟨rfl, fun _ _ => rfl⟩

lemma ctlFrame_update (ep : Epoll) (fd : ℕ) (x : Option EpollEvents) :
    CtlFrame ep ⟨ep.opened, Function.update ep.interest fd x⟩ fd :=
  ⟨rfl, fun _ hne => Function.update_of_ne hne _ _⟩

/-- What the list has for a descriptor after the operation -/
def CtlOp.entry (ee : EpollEvents) : CtlOp → Option EpollEvents
  | .add => some ee
  | .mod => some ee
  | .del => none

/-- A call of `epoll_ctl` that succeeds -/
lemma epollCtl_eq_some {ep ep' : Epoll} {op : CtlOp} {fd : ℕ} {ee : EpollEvents} {refused : Bool}
    (h : epollCtl ep op fd ee refused = some ep') :
    ep.opened fd = true ∧ refused = false ∧ ep' = ⟨ep.opened, Function.update ep.interest fd (op.entry ee)⟩ := by
  unfold epollCtl at h
  by_cases hcall : ep.opened fd ∧ ¬refused
  · rw [if_pos hcall] at h
    refine ⟨hcall.1, eq_false_of_ne_true hcall.2, ?_⟩
    cases op <;> cases hin : ep.interest fd <;> simp_all [CtlOp.entry]
  · rw [if_neg hcall] at h
    cases h

/-- The entry that `aeCreateFileEvent` stores -/
def FileEvent.register (fe : FileEvent π δ) (mask : BitVec 32) (proc : π) (clientData : δ) :
    FileEvent π δ :=
  { mask := fe.mask ||| mask
    rfileProc := if mask &&& aeReadable ≠ 0#32 then some proc else fe.rfileProc
    wfileProc := if mask &&& aeWritable ≠ 0#32 then some proc else fe.wfileProc
    clientData := some clientData }

lemma raiseMaxfd_eq (l : EventLoop π δ) (fd : ℕ) :
    l.raiseMaxfd fd = { l with maxfd := max l.maxfd fd } := by
  unfold EventLoop.raiseMaxfd
  by_cases hmax : (fd : ℤ) > l.maxfd
  · rw [if_pos hmax, max_eq_right (by omega)]
  · rw [if_neg hmax, max_eq_left (by omega)]

/-- The loop after a registration that succeeds -/
def EventLoop.registered (l : EventLoop π δ) (fd : ℕ) (mask : BitVec 32) (proc : π)
    (clientData : δ) : EventLoop π δ :=
  { l with
    maxfd := max l.maxfd fd
    events := Function.update l.events fd ((l.events fd).register mask proc clientData)
    epoll := ⟨l.epoll.opened, Function.update l.epoll.interest fd
      (some (epollEvents (mask ||| (l.events fd).mask)))⟩ }

/-- `aeCreateFileEvent` leaves everything as it is, or it registers an open descriptor. -/
lemma aeCreateFileEvent_cases (l : EventLoop π δ) (fd : ℕ) (mask : BitVec 32) (proc : π)
    (clientData : δ) (refused : Bool) :
    aeCreateFileEvent l fd mask proc clientData refused = (l, false) ∨
      fd < l.setsize ∧ l.epoll.opened fd = true ∧ refused = false ∧
        aeCreateFileEvent l fd mask proc clientData refused =
          (l.registered fd mask proc clientData, true) := by
  unfold aeCreateFileEvent
  by_cases hfd : fd ≥ l.setsize
  · exact Or.inl (if_pos hfd)
  · rw [if_neg hfd]
    unfold aeApiAddEvent
    dsimp only
    cases hctl : epollCtl l.epoll (if (l.events fd).mask = aeNone then CtlOp.add else CtlOp.mod) fd
        (epollEvents (mask ||| (l.events fd).mask)) refused with
    | none => exact Or.inl rfl
    | some ep =>
      obtain ⟨hopen, hrefused, rfl⟩ := epollCtl_eq_some hctl
      refine Or.inr ⟨by omega, hopen, hrefused, ?_⟩
      simp only [Option.map_some, raiseMaxfd_eq]
      by_cases hnone : (l.events fd).mask = aeNone
      · simp only [if_pos hnone]
        rfl
      · simp only [if_neg hnone]
        rfl

lemma or_ne_none {a b : BitVec 32} (hb : b ≠ aeNone) : a ||| b ≠ aeNone := by
  intro h
  apply hb
  have hand : (a ||| b) &&& b = b := by
    apply BitVec.eq_of_getLsbD_eq
    intro i hi
    rw [BitVec.getLsbD_and, BitVec.getLsbD_or]
    cases b.getLsbD i <;> simp
  rw [h] at hand
  rw [← hand]
  exact BitVec.zero_and

/-- An entry that belongs to an open descriptor changes, and with it what the kernel watches for it. -/
lemma Sound.set {l : EventLoop π δ} (h : Sound l) {fd : ℕ} (hfd : fd < l.setsize)
    (hopen : l.epoll.opened fd = true) {maxfd : ℤ} {fe : FileEvent π δ} {ep : Epoll}
    (hmaxfd : MaxfdOk maxfd l.setsize (Function.update l.events fd fe)) (hep : CtlFrame l.epoll ep fd) :
    Sound { l with maxfd := maxfd, events := Function.update l.events fd fe, epoll := ep } := by
  refine ⟨hmaxfd, ?_, ?_⟩
  · intro fd' hfd'
    change l.setsize ≤ fd' at hfd'
    exact (hep.other fd' (by omega)).trans (h.outside fd' hfd')
  · intro fd' hfd' hne
    change ep.opened fd' = true
    rw [hep.opened]
    by_cases heq : fd' = fd
    · rwa [heq]
    · change (Function.update l.events fd fe fd').mask ≠ aeNone at hne
      rw [Function.update_of_ne heq] at hne
      exact h.opened fd' hfd' hne

lemma Sound.create {l : EventLoop π δ} (h : Sound l) (fd : ℕ) {mask : BitVec 32}
    (hmask : mask ≠ aeNone) (proc : π) (clientData : δ) (refused : Bool) :
    Sound (aeCreateFileEvent l fd mask proc clientData refused).1 := by
  rcases aeCreateFileEvent_cases l fd mask proc clientData refused with heq | ⟨hfd, hopen, -, heq⟩
  · rw [heq]
    exact h
  · rw [heq]
    exact h.set hfd hopen (h.maxfd.enter hfd (or_ne_none hmask)) (ctlFrame_update _ _ _)

lemma watched_register (fe : FileEvent π δ) {mask : BitVec 32} (hmask : mask ≠ aeNone) (proc : π)
    (clientData : δ) :
    watched (fe.register mask proc clientData).mask = some (epollEvents (mask ||| fe.mask)) := by
  have hne : (fe.register mask proc clientData).mask ≠ aeNone := or_ne_none hmask
  rw [watched, if_neg hne, FileEvent.register, BitVec.or_comm]

/-- An entry and what the kernel watches for it change together. -/
lemma Synced.interest_set {l : EventLoop π δ} (h : Synced l) {fd : ℕ} {fe : FileEvent π δ}
    {x : Option EpollEvents} (hx : x = watched fe.mask) {fd' : ℕ} (hfd' : fd' < l.setsize) :
    Function.update l.epoll.interest fd x fd' = watched (Function.update l.events fd fe fd').mask := by
  by_cases heq : fd' = fd
  · rw [heq, Function.update_self, Function.update_self, hx]
  · rw [Function.update_of_ne heq, Function.update_of_ne heq]
    exact h.interest fd' hfd'

lemma Synced.create {l : EventLoop π δ} (h : Synced l) (fd : ℕ) {mask : BitVec 32}
    (hmask : mask ≠ aeNone) (proc : π) (clientData : δ) (refused : Bool) :
    Synced (aeCreateFileEvent l fd mask proc clientData refused).1 := by
  have hsound := h.toSound.create fd hmask proc clientData refused
  rcases aeCreateFileEvent_cases l fd mask proc clientData refused with heq | ⟨hfd, hopen, -, heq⟩
  · rw [heq]
    exact h
  · rw [heq] at hsound ⊢
    exact ⟨hsound, fun fd' hfd' => h.interest_set (watched_register _ hmask proc clientData).symm hfd'⟩

/-- The operation follows from the mask, so that `epoll_ctl` fails only for a descriptor that is not
open, or when the kernel refuses the call. -/
lemma aeCreateFileEvent_ok_iff {l : EventLoop π δ} (h : Synced l) (fd : ℕ) (mask : BitVec 32) (proc : π)
    (clientData : δ) (refused : Bool) :
    (aeCreateFileEvent l fd mask proc clientData refused).2 = true ↔
      fd < l.setsize ∧ l.epoll.opened fd = true ∧ refused = false := by
  constructor
  · intro hok
    rcases aeCreateFileEvent_cases l fd mask proc clientData refused with heq | ⟨hfd, hopen, href, -⟩
    · rw [heq] at hok
      cases hok
    · exact ⟨hfd, hopen, href⟩
  · rintro ⟨hfd, hopen, rfl⟩
    have hi := h.interest fd hfd
    unfold aeCreateFileEvent aeApiAddEvent epollCtl
    rw [if_neg (Nat.not_le.mpr hfd)]
    by_cases hnone : (l.events fd).mask = aeNone
    · simp [hopen, hi, watched, hnone]
    · simp [hopen, hi, watched, hnone]

lemma setsize_aeCreateFileEvent (l : EventLoop π δ) (fd : ℕ) (mask : BitVec 32) (proc : π)
    (clientData : δ) (refused : Bool) :
    (aeCreateFileEvent l fd mask proc clientData refused).1.setsize = l.setsize := by
  rcases aeCreateFileEvent_cases l fd mask proc clientData refused with heq | ⟨-, -, -, heq⟩
  · rw [heq]
  · rw [heq]
    rfl

/-- The entry that `aeDeleteFileEvent` stores -/
def FileEvent.unregister (fe : FileEvent π δ) (mask : BitVec 32) : FileEvent π δ :=
  { fe with mask := fe.mask &&& ~~~mask }

lemma lowerMaxfd_eq (l : EventLoop π δ) (fd : ℕ) :
    l.lowerMaxfd fd = { l with
      maxfd := if fd = l.maxfd ∧ (l.events fd).mask = aeNone then lastUsed l.events l.maxfd.toNat
        else l.maxfd } := by
  unfold EventLoop.lowerMaxfd
  split_ifs <;> rfl

/-- The loop after a call of `aeDeleteFileEvent` that finds the descriptor registered; `ep` is what the
kernel has made of it. -/
def EventLoop.unregistered (l : EventLoop π δ) (fd : ℕ) (mask : BitVec 32) (ep : Epoll) :
    EventLoop π δ :=
  let events := Function.update l.events fd ((l.events fd).unregister mask)
  { l with
    maxfd := if fd = l.maxfd ∧ (events fd).mask = aeNone then lastUsed events l.maxfd.toNat else l.maxfd
    events := events
    epoll := ep }

lemma aeDeleteFileEvent_eq {l : EventLoop π δ} {fd : ℕ} (hfd : fd < l.setsize)
    (hused : (l.events fd).mask ≠ aeNone) (mask : BitVec 32) (refused : Bool) :
    aeDeleteFileEvent l fd mask refused =
      l.unregistered fd mask (aeApiDelEvent l fd mask refused).epoll := by
  unfold aeDeleteFileEvent
  rw [if_neg (by omega), if_neg hused]
  dsimp only
  rw [lowerMaxfd_eq]
  rfl

lemma aeDeleteFileEvent_noop {l : EventLoop π δ} {fd : ℕ}
    (hnone : ¬(fd < l.setsize ∧ (l.events fd).mask ≠ aeNone)) (mask : BitVec 32) (refused : Bool) :
    aeDeleteFileEvent l fd mask refused = l := by
  unfold aeDeleteFileEvent
  by_cases hfd : fd ≥ l.setsize
  · rw [if_pos hfd]
  · have hmask : (l.events fd).mask = aeNone := by
      by_contra hne
      exact hnone ⟨by omega, hne⟩
    rw [if_neg hfd, if_pos hmask]

lemma aeApiDelEvent_frame (l : EventLoop π δ) (fd : ℕ) (mask : BitVec 32) (refused : Bool) :
    CtlFrame l.epoll (aeApiDelEvent l fd mask refused).epoll fd := by
  unfold aeApiDelEvent
  dsimp only
  cases hctl : epollCtl l.epoll (if (l.events fd).mask &&& ~~~mask ≠ aeNone then CtlOp.mod else CtlOp.del)
      fd (epollEvents ((l.events fd).mask &&& ~~~mask)) refused with
  | none => exact ctlFrame_refl _ _
  | some ep =>
    obtain ⟨-, -, rfl⟩ := epollCtl_eq_some hctl
    exact ctlFrame_update _ _ _

lemma Sound.delete {l : EventLoop π δ} (h : Sound l) (fd : ℕ) (mask : BitVec 32) (refused : Bool) :
    Sound (aeDeleteFileEvent l fd mask refused) := by
  by_cases hin : fd < l.setsize ∧ (l.events fd).mask ≠ aeNone
  · rw [aeDeleteFileEvent_eq hin.1 hin.2]
    exact h.set hin.1 (h.opened fd hin.1 hin.2) (h.maxfd.leave hin.2 _) (aeApiDelEvent_frame _ _ _ _)
  · rw [aeDeleteFileEvent_noop hin]
    exact h

/-- The kernel takes off what it is asked to, unless it refuses. -/
lemma aeApiDelEvent_eq {l : EventLoop π δ} (h : Synced l) {fd : ℕ} (hfd : fd < l.setsize)
    (hused : (l.events fd).mask ≠ aeNone) (mask : BitVec 32) :
    (aeApiDelEvent l fd mask false).epoll = ⟨l.epoll.opened, Function.update l.epoll.interest fd
      (watched ((l.events fd).mask &&& ~~~mask))⟩ := by
  have hi := h.interest fd hfd
  have hopen := h.opened fd hfd hused
  unfold aeApiDelEvent epollCtl
  by_cases hmask : (l.events fd).mask &&& ~~~mask = aeNone
  · simp [hopen, hi, watched, hmask, hused]
  · simp [hopen, hi, watched, hmask, hused]

lemma Synced.delete {l : EventLoop π δ} (h : Synced l) (fd : ℕ) (mask : BitVec 32) :
    Synced (aeDeleteFileEvent l fd mask false) := by
  have hsound := h.toSound.delete fd mask false
  by_cases hin : fd < l.setsize ∧ (l.events fd).mask ≠ aeNone
  · rw [aeDeleteFileEvent_eq hin.1 hin.2, aeApiDelEvent_eq h hin.1 hin.2] at hsound ⊢
    refine ⟨hsound, fun fd' hfd' => ?_⟩
    have hwatched : watched ((l.events fd).mask &&& ~~~mask) =
        watched ((l.events fd).unregister mask).mask := rfl
    exact h.interest_set hwatched hfd'
  · rw [aeDeleteFileEvent_noop hin]
    exact h

lemma setsize_aeDeleteFileEvent (l : EventLoop π δ) (fd : ℕ) (mask : BitVec 32) (refused : Bool) :
    (aeDeleteFileEvent l fd mask refused).setsize = l.setsize := by
  by_cases hin : fd < l.setsize ∧ (l.events fd).mask ≠ aeNone
  · rw [aeDeleteFileEvent_eq hin.1 hin.2]
    rfl
  · rw [aeDeleteFileEvent_noop hin]

/-- An entry of the new array is an old one, or it has no mask and had none. -/
lemma aeResizeSetSize_entry {l : EventLoop π δ} (h : Synced l) (setsize : ℕ)
    (memory : ℕ → FileEvent π δ) {fd : ℕ}
    (hfd : fd < (aeResizeSetSize l setsize memory).1.setsize) :
    (fd < l.setsize ∧ (aeResizeSetSize l setsize memory).1.events fd = l.events fd) ∨
      ((aeResizeSetSize l setsize memory).1.events fd).mask = aeNone ∧
        (fd < l.setsize → (l.events fd).mask = aeNone) := by
  have hlt := h.maxfd.lt
  unfold aeResizeSetSize at hfd ⊢
  by_cases hsame : setsize = l.setsize
  · rw [if_pos hsame] at hfd ⊢
    exact Or.inl ⟨hfd, rfl⟩
  · rw [if_neg hsame] at hfd ⊢
    by_cases hsmall : l.maxfd ≥ setsize
    · rw [if_pos hsmall] at hfd ⊢
      exact Or.inl ⟨hfd, rfl⟩
    · rw [if_neg hsmall] at hfd ⊢
      dsimp only at hfd ⊢
      by_cases hbehind : l.maxfd + 1 ≤ fd
      · right
        rw [if_pos ⟨hbehind, hfd⟩]
        refine ⟨rfl, ?_⟩
        intro hin
        by_contra hne
        have hle := h.maxfd.le fd hin hne
        omega
      · left
        rw [if_neg (fun hc => hbehind hc.1), if_pos (by omega)]
        exact ⟨by omega, rfl⟩

lemma aeResizeSetSize_mask {l : EventLoop π δ} (h : Synced l) (setsize : ℕ)
    (memory : ℕ → FileEvent π δ) {fd : ℕ}
    (hfd : fd < (aeResizeSetSize l setsize memory).1.setsize) :
    ((aeResizeSetSize l setsize memory).1.events fd).mask =
      if fd < l.setsize then (l.events fd).mask else aeNone := by
  rcases aeResizeSetSize_entry h setsize memory hfd with ⟨hin, heq⟩ | ⟨hnone, hold⟩
  · rw [if_pos hin, heq]
  · rw [hnone]
    by_cases hin : fd < l.setsize
    · rw [if_pos hin, hold hin]
    · rw [if_neg hin]

/-- The new size is above `maxfd`, or the call is refused. -/
lemma aeResizeSetSize_frame {l : EventLoop π δ} (h : Synced l) (setsize : ℕ)
    (memory : ℕ → FileEvent π δ) :
    (aeResizeSetSize l setsize memory).1.maxfd = l.maxfd ∧
      (aeResizeSetSize l setsize memory).1.epoll = l.epoll ∧
      l.maxfd < (aeResizeSetSize l setsize memory).1.setsize := by
  have hlt := h.maxfd.lt
  unfold aeResizeSetSize
  split_ifs with hsame hsmall
  · exact ⟨rfl, rfl, hlt⟩
  · exact ⟨rfl, rfl, hlt⟩
  · exact ⟨rfl, rfl, by dsimp only; omega⟩

lemma Synced.resize {l : EventLoop π δ} (h : Synced l) (setsize : ℕ) (memory : ℕ → FileEvent π δ) :
    Synced (aeResizeSetSize l setsize memory).1 := by
  obtain ⟨hmaxfd, hepoll, hlt⟩ := aeResizeSetSize_frame h setsize memory
  have hmask : ∀ fd < (aeResizeSetSize l setsize memory).1.setsize,
      ((aeResizeSetSize l setsize memory).1.events fd).mask =
        if fd < l.setsize then (l.events fd).mask else aeNone :=
    fun fd hfd => aeResizeSetSize_mask h setsize memory hfd
  have hold := h.maxfd.lt
  -- an entry in use was in use before
  have hsub : ∀ fd < (aeResizeSetSize l setsize memory).1.setsize,
      ((aeResizeSetSize l setsize memory).1.events fd).mask ≠ aeNone →
      fd < l.setsize ∧ (l.events fd).mask ≠ aeNone := by
    intro fd hfd hne
    rw [hmask fd hfd] at hne
    by_cases hin : fd < l.setsize
    · rw [if_pos hin] at hne
      exact ⟨hin, hne⟩
    · rw [if_neg hin] at hne
      exact absurd rfl hne
  refine ⟨⟨⟨by omega, ?_, ?_⟩, ?_, ?_⟩, ?_⟩
  · rw [hmaxfd]
    rcases h.maxfd.used with hnone | ⟨m, hm, hused⟩
    · exact Or.inl hnone
    · refine Or.inr ⟨m, hm, ?_⟩
      rwa [hmask m (by omega), if_pos (by omega)]
  · intro fd hfd hne
    obtain ⟨hin, hused⟩ := hsub fd hfd hne
    rw [hmaxfd]
    exact h.maxfd.le fd hin hused
  · intro fd hfd
    rw [hepoll]
    by_cases hin : fd < l.setsize
    · rw [h.interest fd hin, watched, if_pos]
      by_contra hne
      have hle := h.maxfd.le fd hin hne
      omega
    · exact h.outside fd (by omega)
  · intro fd hfd hne
    obtain ⟨hin, hused⟩ := hsub fd hfd hne
    rw [hepoll]
    exact h.opened fd hin hused
  · intro fd hfd
    rw [hepoll, hmask fd hfd]
    by_cases hin : fd < l.setsize
    · rw [if_pos hin]
      exact h.interest fd hin
    · rw [if_neg hin, h.outside fd (by omega)]
      rfl

lemma Sound.open {l : EventLoop π δ} (h : Sound l) (fd : ℕ) :
    Sound { l with epoll := l.epoll.open fd } := by
  refine ⟨h.maxfd, h.outside, ?_⟩
  intro fd' hfd' hne
  change Function.update l.epoll.opened fd true fd' = true
  by_cases heq : fd' = fd
  · rw [heq, Function.update_self]
  · rw [Function.update_of_ne heq]
    exact h.opened fd' hfd' hne

lemma Synced.open {l : EventLoop π δ} (h : Synced l) (fd : ℕ) :
    Synced { l with epoll := l.epoll.open fd } :=
  ⟨h.toSound.open fd, h.interest⟩

/-- A descriptor that is not registered is closed. -/
lemma Sound.close {l : EventLoop π δ} (h : Sound l) {fd : ℕ} (hnone : aeGetFileEvents l fd = aeNone) :
    Sound { l with epoll := l.epoll.close fd } := by
  refine ⟨h.maxfd, ?_, ?_⟩
  · intro fd' hfd'
    change Function.update l.epoll.interest fd none fd' = none
    by_cases heq : fd' = fd
    · rw [heq, Function.update_self]
    · rw [Function.update_of_ne heq]
      exact h.outside fd' hfd'
  · intro fd' hfd' hne
    change Function.update l.epoll.opened fd false fd' = true
    have heq : fd' ≠ fd := by
      rintro rfl
      change fd' < l.setsize at hfd'
      rw [aeGetFileEvents, if_neg (by omega)] at hnone
      exact hne hnone
    rw [Function.update_of_ne heq]
    exact h.opened fd' hfd' hne

lemma Synced.close {l : EventLoop π δ} (h : Synced l) {fd : ℕ} (hnone : aeGetFileEvents l fd = aeNone) :
    Synced { l with epoll := l.epoll.close fd } := by
  refine ⟨h.toSound.close hnone, ?_⟩
  intro fd' hfd'
  change fd' < l.setsize at hfd'
  change Function.update l.epoll.interest fd none fd' = watched (l.events fd').mask
  by_cases heq : fd' = fd
  · subst heq
    rw [aeGetFileEvents, if_neg (by omega)] at hnone
    rw [Function.update_self, hnone]
    rfl
  · rw [Function.update_of_ne heq]
    exact h.interest fd' hfd'

end CodeC.AeLoop
