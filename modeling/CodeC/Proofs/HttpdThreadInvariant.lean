import CodeC.HttpdThread
import CodeC.Proofs.AeLoopHandlers

/-!
# The connections of a server thread

Which connection a descriptor belongs to is stored three times: in the table of the loop, in the
connection and in the kernel. `Core` says that they agree, and each handler keeps it, so that no
handler is ever called for a connection that has been freed.
-/

namespace CodeC.HttpdThread
open Library AeLoop

/-- The entry is registered for one direction, with the handler of that direction. -/
inductive Serves (fe : FileEvent Proc Data) (c : ℕ) : Httpd.Mask → Prop
  | readable (hmask : fe.mask = aeReadable) (hproc : fe.rfileProc = some .readable)
      (hdata : fe.clientData = some (.conn c)) : Serves fe c .readable
  | writable (hmask : fe.mask = aeWritable) (hproc : fe.wfileProc = some .writeable)
      (hdata : fe.clientData = some (.conn c)) : Serves fe c .writable

/-- Every entry but the one of the listening socket is free or belongs to a connection. The descriptors
of the connections are open and different. -/
structure Core (l : EventLoop Proc Data) (listenfd : ℕ) (conns : ℕ → Option Conn) (next : ℕ) :
    Prop where
  sound : Sound l
  size : l.setsize = setsize
  listen_lt : listenfd < setsize
  listen : (l.events listenfd).mask = aeReadable ∧
    (l.events listenfd).rfileProc = some .accept ∧ (l.events listenfd).clientData = some .thread
  entry : ∀ fd < setsize, fd ≠ listenfd → (l.events fd).mask = aeNone ∨
    ∃ c conn m, conns c = some conn ∧ conn.fd = fd ∧ Serves (l.events fd) c m
  owned : ∀ c conn, conns c = some conn → c < next ∧ conn.fd ≠ listenfd ∧
    l.epoll.opened conn.fd = true
  unique : ∀ c c' conn conn', conns c = some conn → conns c' = some conn' → conn'.fd = conn.fd → c' = c

/-- An entry in use for the descriptor of a connection is the one of this connection. -/
lemma Core.serves {l : EventLoop Proc Data} {listenfd next : ℕ} {conns : ℕ → Option Conn}
    (h : Core l listenfd conns next) {c : ℕ} {conn : Conn} (hc : conns c = some conn)
    (hfd : conn.fd < setsize) (hused : (l.events conn.fd).mask ≠ aeNone) :
    ∃ m, Serves (l.events conn.fd) c m := by
  obtain ⟨c', conn', m, hc', hfd', hm⟩ :=
    (h.entry conn.fd hfd (h.owned c conn hc).2.1).resolve_left hused
  obtain rfl := h.unique c c' conn conn' hc hc' hfd'
  exact ⟨m, hm⟩

/-- The loop has changed at most the entry of `fd`. -/
structure Changed (l l' : EventLoop Proc Data) (fd : ℕ) (opened : Bool) : Prop where
  sound : Sound l'
  size : l'.setsize = l.setsize
  opened : l'.epoll.opened = Function.update l.epoll.opened fd opened
  other : ∀ fd' ≠ fd, l'.events fd' = l.events fd'

/-- A handler changes one connection and the entry of its descriptor. -/
lemma Core.update {l l' : EventLoop Proc Data} {listenfd next next' : ℕ} {conns : ℕ → Option Conn}
    (h : Core l listenfd conns next) {fd : ℕ} {opened : Bool} (hl : Changed l l' fd opened)
    (hlisten : fd ≠ listenfd) {c : ℕ} (hown : ∀ conn, conns c = some conn → conn.fd = fd)
    (hothers : ∀ c' conn', c' ≠ c → conns c' = some conn' → conn'.fd ≠ fd) (hnext : next ≤ next')
    (hc : c < next') {x : Option Conn} (hx : ∀ conn, x = some conn → conn.fd = fd ∧ opened = true)
    (hentry : fd < setsize → (l'.events fd).mask = aeNone ∨ ∃ conn m, x = some conn ∧
      Serves (l'.events fd) c m) :
    Core l' listenfd (Function.update conns c x) next' := by
  refine ⟨hl.sound, hl.size.trans h.size, h.listen_lt, ?_, ?_, ?_, ?_⟩
  · rw [hl.other listenfd (Ne.symm hlisten)]
    exact h.listen
  · intro fd' hfd' hne
    by_cases heq : fd' = fd
    · subst heq
      rcases hentry hfd' with hnone | ⟨conn, m, hconn, hm⟩
      · exact Or.inl hnone
      · refine Or.inr ⟨c, conn, m, ?_, (hx conn hconn).1, hm⟩
        rw [Function.update_self, hconn]
    · rw [hl.other fd' heq]
      rcases h.entry fd' hfd' hne with hfree | ⟨c', conn', m, hc', hfd, hm⟩
      · exact Or.inl hfree
      · have hcc : c' ≠ c := by
          rintro rfl
          exact heq (hfd.symm.trans (hown conn' hc'))
        refine Or.inr ⟨c', conn', m, ?_, hfd, hm⟩
        rwa [Function.update_of_ne hcc]
  · intro c' conn' hc'
    by_cases hcc : c' = c
    · subst hcc
      rw [Function.update_self] at hc'
      obtain ⟨hfd, hopen⟩ := hx conn' hc'
      rw [hfd]
      refine ⟨hc, hlisten, ?_⟩
      rw [hl.opened, Function.update_self, hopen]
    · rw [Function.update_of_ne hcc] at hc'
      obtain ⟨hlt, hnl, hopen⟩ := h.owned c' conn' hc'
      refine ⟨by omega, hnl, ?_⟩
      rwa [hl.opened, Function.update_of_ne (hothers c' conn' hcc hc')]
  · intro c₁ c₂ conn₁ conn₂ h₁ h₂ hfd
    by_cases hc₁ : c₁ = c
    · by_cases hc₂ : c₂ = c
      · rw [hc₁, hc₂]
      · rw [hc₁, Function.update_self] at h₁
        rw [Function.update_of_ne hc₂] at h₂
        exact absurd (hfd.trans (hx conn₁ h₁).1) (hothers c₂ conn₂ hc₂ h₂)
    · rw [Function.update_of_ne hc₁] at h₁
      by_cases hc₂ : c₂ = c
      · rw [hc₂, Function.update_self] at h₂
        exact absurd (hfd.symm.trans (hx conn₂ h₂).1) (hothers c₁ conn₁ hc₁ h₁)
      · rw [Function.update_of_ne hc₂] at h₂
        exact h.unique c₁ c₂ conn₁ conn₂ h₁ h₂ hfd

lemma and_not_self (m : BitVec 32) : m &&& ~~~m = aeNone := by
  apply BitVec.eq_of_getLsbD_eq
  intro i hi
  simp [aeNone]

/-- `aeDeleteFileEvent` of the mask of an entry; the entry is free afterwards, whatever the kernel
answers. -/
lemma changed_delete {l : EventLoop Proc Data} (h : Sound l) {fd : ℕ} (hfd : fd < l.setsize)
    (hused : (l.events fd).mask ≠ aeNone) (refused : Bool) :
    Changed l (aeDeleteFileEvent l fd (l.events fd).mask refused) fd true ∧
      ((aeDeleteFileEvent l fd (l.events fd).mask refused).events fd).mask = aeNone := by
  have hopen : Function.update l.epoll.opened fd true = l.epoll.opened := by
    rw [← h.opened fd hfd hused]
    exact Function.update_eq_self fd _
  refine ⟨⟨h.delete fd _ refused, setsize_aeDeleteFileEvent l fd _ refused, ?_, ?_⟩, ?_⟩
  · rw [aeDeleteFileEvent_eq hfd hused, hopen]
    exact (aeApiDelEvent_frame l fd _ refused).opened
  · intro fd' hne
    rw [aeDeleteFileEvent_eq hfd hused]
    exact Function.update_of_ne hne _ _
  · rw [aeDeleteFileEvent_eq hfd hused]
    change (Function.update l.events fd _ fd).mask = aeNone
    rw [Function.update_self]
    exact and_not_self _

lemma Changed.trans {l₁ l₂ l₃ : EventLoop Proc Data} {fd : ℕ} {a b : Bool} (h : Changed l₁ l₂ fd a)
    (h' : Changed l₂ l₃ fd b) : Changed l₁ l₃ fd b := by
  refine ⟨h'.sound, h'.size.trans h.size, ?_, ?_⟩
  · rw [h'.opened, h.opened, Function.update_idem]
  · intro fd' hne
    rw [h'.other fd' hne, h.other fd' hne]

/-- A loop that has not changed -/
lemma changed_refl {l : EventLoop Proc Data} (h : Sound l) {fd : ℕ}
    (hopen : l.epoll.opened fd = true) : Changed l l fd true := by
  refine ⟨h, rfl, ?_, fun _ _ => rfl⟩
  rw [← hopen, Function.update_eq_self]

/-- `aeCreateFileEvent` for an open descriptor registers it or fails. -/
lemma changed_create {l : EventLoop Proc Data} (h : Sound l) {fd : ℕ}
    (hopen : l.epoll.opened fd = true) {mask : BitVec 32} (hmask : mask ≠ aeNone) (proc : Proc)
    (data : Data) (refused : Bool) :
    let r := aeCreateFileEvent l fd mask proc data refused
    Changed l r.1 fd true ∧ (r.2 = false ∧ r.1 = l ∨
      r.2 = true ∧ fd < l.setsize ∧ r.1.events fd = (l.events fd).register mask proc data) := by
  have hsound := h.create fd hmask proc data refused
  rcases aeCreateFileEvent_cases l fd mask proc data refused with heq | ⟨hfd, -, -, heq⟩
  · rw [heq]
    exact ⟨changed_refl h hopen, Or.inl ⟨rfl, rfl⟩⟩
  · rw [heq] at hsound ⊢
    refine ⟨⟨hsound, rfl, ?_, fun fd' hne => Function.update_of_ne hne _ _⟩,
      Or.inr ⟨rfl, hfd, Function.update_self fd _ _⟩⟩
    rw [← hopen, Function.update_eq_self]
    rfl

lemma serves_readable {fe : FileEvent Proc Data} (hfe : fe.mask = aeNone) (c : ℕ) :
    Serves (fe.register aeReadable .readable (.conn c)) c .readable := by
  apply Serves.readable _ rfl rfl
  change fe.mask ||| aeReadable = aeReadable
  rw [hfe]
  rfl

lemma serves_writable {fe : FileEvent Proc Data} (hfe : fe.mask = aeNone) (c : ℕ) :
    Serves (fe.register aeWritable .writeable (.conn c)) c .writable := by
  apply Serves.writable _ rfl rfl
  change fe.mask ||| aeWritable = aeWritable
  rw [hfe]
  rfl

/-- The descriptor is registered with `proc` and for nothing else, or not at all when `ok` is false. -/
inductive Entered (l : EventLoop Proc Data) (fd : ℕ) (mask : BitVec 32) (proc : Proc) (data : Data) :
    Bool → Prop
  | registered (fe : FileEvent Proc Data) (hfe : fe.mask = aeNone) (hfd : fd < l.setsize)
      (hentry : l.events fd = fe.register mask proc data) : Entered l fd mask proc data true
  | refused (hnone : fd < l.setsize → (l.events fd).mask = aeNone) : Entered l fd mask proc data false

/-- The registration moves to another direction. -/
lemma changed_switch {l : EventLoop Proc Data} (h : Sound l) {fd : ℕ} (hfd : fd < l.setsize)
    (hused : (l.events fd).mask ≠ aeNone) {mask : BitVec 32} (hmask : mask ≠ aeNone) (proc : Proc)
    (data : Data) (refused : Refused) :
    let r := aeCreateFileEvent (aeDeleteFileEvent l fd (l.events fd).mask refused.delete) fd mask proc
      data refused.create
    Changed l r.1 fd true ∧ Entered r.1 fd mask proc data r.2 := by
  obtain ⟨hdelete, hnone⟩ := changed_delete h hfd hused refused.delete
  have hopen : (aeDeleteFileEvent l fd (l.events fd).mask refused.delete).epoll.opened fd = true := by
    rw [hdelete.opened, Function.update_self]
  obtain ⟨hcreate, hentry⟩ := changed_create hdelete.sound hopen hmask proc data refused.create
  refine ⟨hdelete.trans hcreate, ?_⟩
  rcases hentry with ⟨herr, heq⟩ | ⟨hok, hlt, heq⟩
  · rw [herr, heq]
    exact Entered.refused fun _ => hnone
  · rw [hok]
    exact Entered.registered _ hnone (by rw [hcreate.size]; exact hlt) heq

/-- The descriptor is taken off the loop and closed. -/
lemma changed_close {l : EventLoop Proc Data} (h : Sound l) {fd : ℕ} (hfd : fd < l.setsize)
    (hused : (l.events fd).mask ≠ aeNone) (refused : Bool) :
    let l' := aeDeleteFileEvent l fd (l.events fd).mask refused
    Changed l { l' with epoll := l'.epoll.close fd } fd false ∧ (l'.events fd).mask = aeNone := by
  obtain ⟨hdelete, hnone⟩ := changed_delete h hfd hused refused
  refine ⟨hdelete.trans ⟨?_, rfl, rfl, fun _ _ => rfl⟩, hnone⟩
  apply hdelete.sound.close
  rw [aeGetFileEvents, if_neg (by rw [hdelete.size]; omega), hnone]

/-- A new descriptor is registered. -/
lemma changed_open {l : EventLoop Proc Data} (h : Sound l) {fd : ℕ}
    (hclosed : l.epoll.opened fd = false) {mask : BitVec 32} (hmask : mask ≠ aeNone) (proc : Proc)
    (data : Data) (refused : Bool) :
    let r := aeCreateFileEvent { l with epoll := l.epoll.open fd } fd mask proc data refused
    Changed l r.1 fd true ∧ Entered r.1 fd mask proc data r.2 := by
  have hfree : fd < l.setsize → (l.events fd).mask = aeNone := by
    intro hfd
    by_contra hne
    have htrue := h.opened fd hfd hne
    rw [hclosed] at htrue
    cases htrue
  have hopen : Changed l { l with epoll := l.epoll.open fd } fd true :=
    ⟨h.open fd, rfl, rfl, fun _ _ => rfl⟩
  obtain ⟨hcreate, hentry⟩ := changed_create hopen.sound (by rw [hopen.opened, Function.update_self])
    hmask proc data refused
  refine ⟨hopen.trans hcreate, ?_⟩
  rcases hentry with ⟨herr, heq⟩ | ⟨hok, hlt, heq⟩
  · rw [herr, heq]
    exact Entered.refused hfree
  · rw [hok]
    exact Entered.registered _ (hfree hlt) (by rw [hcreate.size]; exact hlt) heq

/-- What a call of the program does to the loop -/
def callLoop (l : EventLoop Proc Data) : AeLoop.Action Proc Data → EventLoop Proc Data
  | .create fd mask proc data refused => (aeCreateFileEvent l fd mask proc data refused).1
  | .delete fd mask refused => aeDeleteFileEvent l fd mask refused
  | .open fd => { l with epoll := l.epoll.open fd }
  | .close fd => { l with epoll := l.epoll.close fd }
  | _ => l

/-- The registrations that fail when the calls are made one after the other -/
def callsFail (l : EventLoop Proc Data) : List (AeLoop.Action Proc Data) → List Event
  | [] => []
  | .create fd mask proc data refused :: calls =>
    failed [.created fd mask proc data (aeCreateFileEvent l fd mask proc data refused).2] ++
      callsFail (aeCreateFileEvent l fd mask proc data refused).1 calls
  | a :: calls => callsFail (callLoop l a) calls

def IsCall : AeLoop.Action Proc Data → Prop
  | .create _ _ _ _ _ | .delete _ _ _ | .open _ | .close _ => True
  | _ => False

lemma failed_append (es fs : List (AeLoop.Event Proc Data)) :
    failed (es ++ fs) = failed es ++ failed fs := List.filterMap_append

lemma step_call {ae ae' : AeLoop.State Proc Data} {a : AeLoop.Action Proc Data}
    {es : List (AeLoop.Event Proc Data)} (ha : IsCall a) (h : AeLoop.step ae a = some (ae', es)) :
    ae' = ⟨callLoop ae.loop a, ae.pc⟩ ∧ (∀ fs, callOf (es ++ fs) = callOf fs) ∧
      ∀ calls, callsFail ae.loop (a :: calls) = failed es ++ callsFail (callLoop ae.loop a) calls := by
  cases a with
  | create fd mask proc data refused =>
    simp only [AeLoop.step] at h
    split_ifs at h
    obtain ⟨rfl, rfl⟩ := Prod.mk.inj (Option.some.inj h)
    exact ⟨rfl, fun fs => rfl, fun calls => rfl⟩
  | delete fd mask refused =>
    simp only [AeLoop.step] at h
    split_ifs at h
    obtain ⟨rfl, rfl⟩ := Prod.mk.inj (Option.some.inj h)
    exact ⟨rfl, fun fs => rfl, fun calls => rfl⟩
  | «open» fd =>
    simp only [AeLoop.step] at h
    split_ifs at h
    obtain ⟨rfl, rfl⟩ := Prod.mk.inj (Option.some.inj h)
    exact ⟨rfl, fun fs => rfl, fun calls => rfl⟩
  | close fd =>
    simp only [AeLoop.step] at h
    split_ifs at h
    obtain ⟨rfl, rfl⟩ := Prod.mk.inj (Option.some.inj h)
    exact ⟨rfl, fun fs => rfl, fun calls => rfl⟩
  | _ => exact absurd ha not_false

/-- The calls of a handler change the loop one after the other; then the handler returns. -/
lemma run_calls {ae ae' : AeLoop.State Proc Data} {calls : List (AeLoop.Action Proc Data)}
    {es : List (AeLoop.Event Proc Data)} (hcalls : ∀ a ∈ calls, IsCall a)
    (h : run AeLoop.step ae (calls ++ [.ret]) = some (ae', es)) :
    ∃ fs, AeLoop.step ⟨calls.foldl callLoop ae.loop, ae.pc⟩ .ret = some (ae', fs) ∧
      callOf es = callOf fs ∧ failed es = callsFail ae.loop calls ++ failed fs := by
  induction calls generalizing ae es with
  | nil =>
    obtain ⟨ae₁, e, f, hret, hnil, rfl⟩ := (run_cons_iff _ _ _ _ _ _).mp h
    simp only [run_nil, Option.some.injEq, Prod.mk.injEq] at hnil
    obtain ⟨rfl, rfl⟩ := hnil
    rw [List.append_nil]
    exact ⟨e, hret, rfl, rfl⟩
  | cons a calls ih =>
    obtain ⟨ae₁, e, f, ha, hrest, rfl⟩ := (run_cons_iff _ _ _ _ _ _).mp h
    obtain ⟨rfl, hcall, hfail⟩ := step_call (hcalls a List.mem_cons_self) ha
    obtain ⟨fs, hret, hfs, hfailed⟩ := ih (fun b hb => hcalls b (List.mem_cons_of_mem a hb)) hrest
    refine ⟨fs, hret, (hcall f).trans hfs, ?_⟩
    rw [failed_append, hfailed, hfail, List.append_assoc]

/-- The handler that runs is the one of the entry that has fired. -/
def Running (l : EventLoop Proc Data) (running : Option Call) : Pc → Prop
  | .reading f _ =>
    running = some ⟨(l.events f.fd).rfileProc, f.fd, (l.events f.fd).clientData⟩ ∧
      (l.events f.fd).mask &&& f.mask &&& aeReadable ≠ 0#32
  | .writing f _ =>
    running = some ⟨(l.events f.fd).wfileProc, f.fd, (l.events f.fd).clientData⟩ ∧
      (l.events f.fd).mask &&& f.mask &&& aeWritable ≠ 0#32
  | _ => running = none

/-- What a step of `aeProcessEvents` leaves behind -/
def Dispatched (ae ae' : AeLoop.State Proc Data) (es : List (AeLoop.Event Proc Data)) : Prop :=
  ae'.loop = ae.loop ∧ Running ae'.loop (callOf es) ae'.pc ∧
    (∀ f ∈ ae'.pc.pending, f ∈ ae.pc.pending) ∧ failed es = []

lemma dispatched_write {ae ae' : AeLoop.State Proc Data} {es : List (AeLoop.Event Proc Data)}
    {f : FiredEvent} {rest : List FiredEvent} (hpending : ∀ g ∈ f :: rest, g ∈ ae.pc.pending)
    (rfired : Bool) (h : dispatchWrite ae rfired f rest = (ae', es)) : Dispatched ae ae' es := by
  unfold dispatchWrite at h
  dsimp only at h
  split_ifs at h with hcond
  · obtain ⟨rfl, rfl⟩ := Prod.mk.inj h
    exact ⟨rfl, ⟨rfl, hcond.1⟩, hpending, rfl⟩
  · obtain ⟨rfl, rfl⟩ := Prod.mk.inj h
    exact ⟨rfl, rfl, fun g hg => hpending g (List.mem_cons_of_mem f hg), rfl⟩

lemma dispatched_ret {ae ae' : AeLoop.State Proc Data} {es : List (AeLoop.Event Proc Data)}
    (h : AeLoop.step ae .ret = some (ae', es)) : Dispatched ae ae' es := by
  simp only [AeLoop.step] at h
  split at h
  · case _ f rest hpc =>
    apply dispatched_write _ true (Option.some.inj h)
    rw [hpc]
    exact fun g hg => hg
  · case _ f rest hpc =>
    obtain ⟨rfl, rfl⟩ := Prod.mk.inj (Option.some.inj h)
    refine ⟨rfl, rfl, fun g hg => ?_, rfl⟩
    rw [hpc]
    exact List.mem_cons_of_mem f hg
  · cases h

lemma dispatched_next {ae ae' : AeLoop.State Proc Data} {es : List (AeLoop.Event Proc Data)}
    (h : AeLoop.step ae .next = some (ae', es)) : Dispatched ae ae' es := by
  simp only [AeLoop.step] at h
  split at h
  · obtain ⟨rfl, rfl⟩ := Prod.mk.inj (Option.some.inj h)
    exact ⟨rfl, rfl, by simp [Pc.pending], rfl⟩
  · case _ f rest hpc =>
    have hpending : ∀ g ∈ f :: rest, g ∈ ae.pc.pending := by
      rw [hpc]
      exact fun g hg => hg
    have hdispatch := Option.some.inj h
    unfold dispatch at hdispatch
    dsimp only at hdispatch
    split_ifs at hdispatch with hcond
    · obtain ⟨rfl, rfl⟩ := Prod.mk.inj hdispatch
      exact ⟨rfl, ⟨rfl, hcond⟩, hpending, rfl⟩
    · exact dispatched_write hpending false hdispatch
  · cases h

structure Inv (s : State) : Prop where
  core : Core s.ae.loop s.listenfd s.conns s.next
  pending : ∀ f ∈ s.ae.pc.pending, f.fd < setsize
  running : Running s.ae.loop s.running s.ae.pc

/-- A mask of one direction has not the bit of the other. -/
lemma not_both {x y : BitVec 32} {d : Direction} (hx : x.getLsbD d.index = false) :
    ¬x &&& y &&& d.bit ≠ 0#32 := by
  rw [and_bit_ne_zero_iff, BitVec.getLsbD_and, hx, Bool.false_and]
  exact Bool.false_ne_true

/-- The call is one of `socket_accept` for the listening socket, or one of the handler of the direction
in which a live connection is registered. -/
inductive Called (s : State) : Call → Prop
  | listen : Called s ⟨some .accept, s.listenfd, some .thread⟩
  | readable (c : ℕ) (conn : Conn) (hc : s.conns c = some conn) (hfd : conn.fd < setsize)
      (hserves : Serves (s.ae.loop.events conn.fd) c .readable) :
      Called s ⟨some .readable, conn.fd, some (.conn c)⟩
  | writeable (c : ℕ) (conn : Conn) (hc : s.conns c = some conn) (hfd : conn.fd < setsize)
      (hserves : Serves (s.ae.loop.events conn.fd) c .writable) :
      Called s ⟨some .writeable, conn.fd, some (.conn c)⟩

/-- An entry that has fired is the one of the listening socket or of a live connection. -/
lemma Core.fired {l : EventLoop Proc Data} {listenfd next : ℕ} {conns : ℕ → Option Conn}
    (h : Core l listenfd conns next) {fd : ℕ} (hfd : fd < setsize) {mask : BitVec 32} {d : Direction}
    (hbits : (l.events fd).mask &&& mask &&& d.bit ≠ 0#32) :
    fd = listenfd ∨ ∃ c conn m, conns c = some conn ∧ conn.fd = fd ∧ Serves (l.events fd) c m := by
  by_cases hlisten : fd = listenfd
  · exact Or.inl hlisten
  · right
    apply (h.entry fd hfd hlisten).resolve_left
    intro hnone
    rw [hnone] at hbits
    exact not_both (by cases d <;> rfl) hbits

lemma Inv.called {s : State} (h : Inv s) {call : Call} (hcall : s.running = some call) :
    Called s call := by
  have hrunning := h.running
  cases hpc : s.ae.pc with
  | idle =>
    rw [hpc] at hrunning
    change s.running = none at hrunning
    rw [hcall] at hrunning
    cases hrunning
  | dispatching rest =>
    rw [hpc] at hrunning
    change s.running = none at hrunning
    rw [hcall] at hrunning
    cases hrunning
  | reading f rest =>
    rw [hpc] at hrunning
    obtain ⟨hrun, hbits⟩ := hrunning
    rw [hcall] at hrun
    obtain rfl := Option.some.inj hrun
    have hfd : f.fd < setsize := h.pending f (by rw [hpc]; exact List.mem_cons_self)
    rcases h.core.fired hfd (d := .reading) hbits with hlisten | ⟨c, conn, m, hc, hconn, hserves⟩
    · rw [hlisten, h.core.listen.2.1, h.core.listen.2.2]
      exact Called.listen
    · cases hserves with
      | readable hmask hproc hdata =>
        rw [hproc, hdata, ← hconn]
        rw [← hconn] at hmask hproc hdata hfd
        exact Called.readable c conn hc hfd (Serves.readable hmask hproc hdata)
      | writable hmask hproc hdata =>
        rw [hmask] at hbits
        exact absurd hbits (not_both (d := .reading) (by decide))
  | writing f rest =>
    rw [hpc] at hrunning
    obtain ⟨hrun, hbits⟩ := hrunning
    rw [hcall] at hrun
    obtain rfl := Option.some.inj hrun
    have hfd : f.fd < setsize := h.pending f (by rw [hpc]; exact List.mem_cons_self)
    rcases h.core.fired hfd (d := .writing) hbits with hlisten | ⟨c, conn, m, hc, hconn, hserves⟩
    · rw [hlisten, h.core.listen.1] at hbits
      exact absurd hbits (not_both (d := .writing) (by decide))
    · cases hserves with
      | readable hmask hproc hdata =>
        rw [hmask] at hbits
        exact absurd hbits (not_both (d := .writing) (by decide))
      | writable hmask hproc hdata =>
        rw [hproc, hdata, ← hconn]
        rw [← hconn] at hmask hproc hdata hfd
        exact Called.writeable c conn hc hfd (Serves.writable hmask hproc hdata)

/-- The invariant after a handler, from what it has left in the table -/
lemma Inv.returns {s : State} (h : Inv s) {e : Effect} {ae : AeLoop.State Proc Data}
    {es : List (AeLoop.Event Proc Data)} (hcalls : ∀ a ∈ e.calls, IsCall a)
    (hrun : run AeLoop.step s.ae (e.calls ++ [.ret]) = some (ae, es))
    (hcore : Core (e.calls.foldl callLoop s.ae.loop) s.listenfd e.conns e.next) :
    ae.loop = e.calls.foldl callLoop s.ae.loop ∧ failed es = callsFail s.ae.loop e.calls ∧
      Inv ⟨ae, callOf es, s.listenfd, e.conns, e.next, e.input⟩ := by
  obtain ⟨fs, hret, hcall, hfailed⟩ := run_calls hcalls hrun
  obtain ⟨hloop, hrunning, hpending, hnone⟩ := dispatched_ret hret
  rw [hnone, List.append_nil] at hfailed
  refine ⟨hloop, hfailed, ⟨?_, fun f hf => h.pending f (hpending f hf), ?_⟩⟩
  · dsimp only at hloop ⊢
    rwa [hloop]
  · rw [hcall]
    exact hrunning

end CodeC.HttpdThread
