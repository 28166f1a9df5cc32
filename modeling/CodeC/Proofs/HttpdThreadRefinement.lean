import CodeC.Proofs.HttpdThreadInvariant

/-!
# A server thread and its connections one by one

`CodeC.Httpd` models one connection. The thread refines the product of such connections: a step of
the thread is a step of one connection, or the arrival of a new one, or no step at all, and the bytes
that each client gets are those of a run of its own connection. A connection whose registration has
failed is left out from then on.
-/

namespace CodeC.HttpdThread
open Library AeLoop

/-- What is seen of connection `c` -/
def seen (c : ℕ) : Event → Option Httpd.Event
  | .sent c' bytes => if c' = c then some (.sent bytes) else none
  | _ => none

def seenOf (c : ℕ) (es : List Event) : List Httpd.Event := es.filterMap (seen c)

/-- The event is one of a handler of connection `c`. -/
def About (c : ℕ) (e : Event) : Prop := (∃ bytes, e = .sent c bytes) ∨ e = .closed c ∨ e = .freedRead c

@[simp] lemma about_sent (c c' : ℕ) (bytes : List UInt8) : About c (.sent c' bytes) ↔ c' = c := by
  simp [About]

@[simp] lemma about_closed (c c' : ℕ) : About c (.closed c') ↔ c' = c := by simp [About]

@[simp] lemma about_freedRead (c c' : ℕ) : About c (.freedRead c') ↔ c' = c := by simp [About]

@[simp] lemma not_about_accepted (c c' fd : ℕ) (input : List UInt8) :
    ¬About c (.accepted c' fd input) := by
  simp [About]

@[simp] lemma not_about_unregistered (c c' : ℕ) : ¬About c (.unregistered c') := by simp [About]

@[simp] lemma not_about_fault (c : ℕ) : ¬About c .fault := by simp [About]

lemma About.unique {c c' : ℕ} {e : Event} (h : About c e) (h' : About c' e) : c' = c := by
  rcases h with ⟨bytes, rfl⟩ | rfl | rfl <;> exact (by simpa using h' : c = c').symm

lemma seenOf_eq_nil {c : ℕ} {es : List Event} (h : ∀ e ∈ es, ¬About c e) : seenOf c es = [] := by
  apply List.filterMap_eq_nil_iff.mpr
  intro e he
  cases e with
  | sent c' bytes =>
    have hne : c' ≠ c := by
      rintro rfl
      exact h _ he (Or.inl ⟨bytes, rfl⟩)
    exact if_neg hne
  | _ => rfl

/-- The descriptor of the connection is registered. -/
def Registered (s : State) (conn : Conn) : Prop :=
  conn.fd < setsize ∧ (s.ae.loop.events conn.fd).mask ≠ aeNone

/-- The connection `c` of the thread is in the state `σ`: the buffer, the position of the response, what
is left of the client's bytes, and the direction in which it is registered, if it is. -/
structure Matches (s : State) (c : ℕ) (conn : Conn) (σ : Httpd.State) : Prop where
  buf : σ.conn.buf = conn.buf
  writeCur : σ.conn.writeCur = conn.writeCur
  input : σ.input = s.input conn.fd
  mask : Registered s conn → Serves (s.ae.loop.events conn.fd) c σ.conn.mask

/-- Nothing has happened to connection `c'`. -/
def Kept (s s' : State) (c' : ℕ) : Prop :=
  s'.conns c' = s.conns c' ∧ ∀ conn, s.conns c' = some conn →
    s'.input conn.fd = s.input conn.fd ∧
      (conn.fd < setsize → s'.ae.loop.events conn.fd = s.ae.loop.events conn.fd)

lemma Kept.registered_iff {s s' : State} {c : ℕ} {conn : Conn} (h : Kept s s' c)
    (hc : s.conns c = some conn) : Registered s' conn ↔ Registered s conn := by
  unfold Registered
  refine and_congr_right fun hfd => ?_
  rw [(h.2 conn hc).2 hfd]

lemma Matches.kept {s s' : State} {c : ℕ} {conn : Conn} {σ : Httpd.State} (h : Matches s c conn σ)
    (hc : s.conns c = some conn) (hkept : Kept s s' c) : Matches s' c conn σ := by
  obtain ⟨hinput, hevents⟩ := hkept.2 conn hc
  refine ⟨h.buf, h.writeCur, h.input.trans hinput.symm, ?_⟩
  intro hreg
  rw [hevents hreg.1]
  exact h.mask ((hkept.registered_iff hc).mp hreg)

/-- The connection goes on in the state `σ`, or it is freed and `σ` is closed. -/
def Continues (s : State) (c : ℕ) (σ : Httpd.State) : Prop :=
  (∃ conn, s.conns c = some conn ∧ Matches s c conn σ) ∨ s.conns c = none ∧ σ.conn.mask = .closed

/-- The event of a registration that may have failed -/
def lostIf (c : ℕ) (lost : Bool) : List Event := if lost then [.unregistered c] else []

lemma mem_lostIf {c : ℕ} {lost : Bool} {e : Event} :
    e ∈ lostIf c lost ↔ lost = true ∧ e = .unregistered c := by
  cases lost <;> simp [lostIf]

/-- What a step of the thread can be -/
inductive Moves (s s' : State) : List Event → Prop
  | quiet (hnext : s'.next = s.next) (hkept : ∀ c, Kept s s' c) : Moves s s' []
  | accept (fd : ℕ) (input : List UInt8) (lost : Bool) (hnext : s'.next = s.next + 1)
      (hkept : ∀ c < s.next, Kept s s' c) (hnew : s'.conns s.next = some ⟨fd, [], 0⟩)
      (hmatch : Matches s' s.next ⟨fd, [], 0⟩ (Httpd.start input))
      (hlost : Registered s' ⟨fd, [], 0⟩ ↔ lost = false) :
      Moves s s' (.accepted s.next fd input :: lostIf s.next lost)
  | serve (c : ℕ) (conn : Conn) (a : Httpd.Action) (es : List Event) (lost : Bool)
      (hc : s.conns c = some conn) (hreg : Registered s conn) (hnext : s'.next = s.next)
      (hkept : ∀ c' ≠ c, Kept s s' c') (hes : ∀ e ∈ es, About c e)
      (hsim : ∀ σ, Matches s c conn σ → ∃ σ', Httpd.step σ a = some (σ', seenOf c es) ∧
        Continues s' c σ')
      (hlost : ∀ conn', s'.conns c = some conn' → (Registered s' conn' ↔ lost = false)) :
      Moves s s' (es ++ lostIf c lost)

/-- A handler for connection `c` that changes nothing but `c`, its descriptor and its entry -/
lemma Inv.serves {s : State} (h : Inv s) {c : ℕ} {conn : Conn} (hc : s.conns c = some conn)
    {e : Effect} {ae : AeLoop.State Proc Data}
    {es : List (AeLoop.Event Proc Data)} (hcalls : ∀ a ∈ e.calls, IsCall a)
    (hrun : run AeLoop.step s.ae (e.calls ++ [.ret]) = some (ae, es)) {x : Option Conn}
    (hconns : e.conns = Function.update s.conns c x) (hnext : e.next = s.next)
    (hinput : ∀ fd ≠ conn.fd, e.input fd = s.input fd) {opened : Bool}
    (hchanged : Changed s.ae.loop (e.calls.foldl callLoop s.ae.loop) conn.fd opened)
    (hx : ∀ conn', x = some conn' → conn'.fd = conn.fd ∧ opened = true)
    (hentry : ((e.calls.foldl callLoop s.ae.loop).events conn.fd).mask = aeNone ∨
      ∃ conn' m, x = some conn' ∧ Serves ((e.calls.foldl callLoop s.ae.loop).events conn.fd) c m) :
    let s' : State := ⟨ae, callOf es, s.listenfd, e.conns, e.next, e.input⟩
    s'.ae.loop = e.calls.foldl callLoop s.ae.loop ∧ failed es = callsFail s.ae.loop e.calls ∧ Inv s' ∧
      ∀ c' ≠ c, Kept s s' c' := by
  obtain ⟨hlt, hlisten, -⟩ := h.core.owned c conn hc
  have hothers : ∀ c' conn', c' ≠ c → s.conns c' = some conn' → conn'.fd ≠ conn.fd :=
    fun c' conn' hne hc' heq => hne (h.core.unique c c' conn conn' hc hc' heq)
  have hcore : Core (e.calls.foldl callLoop s.ae.loop) s.listenfd e.conns e.next := by
    rw [hconns, hnext]
    apply h.core.update hchanged hlisten _ hothers (Nat.le_refl _) hlt hx fun _ => hentry
    intro conn' hc'
    rw [hc] at hc'
    rw [Option.some.inj hc']
  obtain ⟨hloop, hfailed, hinv⟩ := h.returns hcalls hrun hcore
  refine ⟨hloop, hfailed, hinv, ?_⟩
  intro c' hne
  refine ⟨?_, ?_⟩
  · change e.conns c' = s.conns c'
    rw [hconns, Function.update_of_ne hne]
  · intro conn' hc'
    have hfd' := hothers c' conn' hne hc'
    refine ⟨hinput conn'.fd hfd', fun _ => ?_⟩
    change ae.loop.events conn'.fd = _
    rw [hloop, hchanged.other conn'.fd hfd']

lemma Serves.mask_ne {fe : FileEvent Proc Data} {c : ℕ} {m : Httpd.Mask} (h : Serves fe c m) :
    fe.mask ≠ aeNone := by
  cases h with
  | readable hmask _ _ =>
    rw [hmask]
    decide
  | writable hmask _ _ =>
    rw [hmask]
    decide

lemma Serves.mask_unique {fe : FileEvent Proc Data} {c c' : ℕ} {m m' : Httpd.Mask}
    (h : Serves fe c m) (h' : Serves fe c' m') : m' = m := by
  cases h with
  | readable hmask _ _ =>
    cases h' with
    | readable _ _ _ => rfl
    | writable hmask' _ _ =>
      rw [hmask] at hmask'
      exact absurd hmask' (by decide)
  | writable hmask _ _ =>
    cases h' with
    | readable hmask' _ _ =>
      rw [hmask] at hmask'
      exact absurd hmask' (by decide)
    | writable _ _ _ => rfl

/-- The state that a connection in the table stands for -/
lemma Matches.eq {s : State} {c : ℕ} {conn : Conn} {σ : Httpd.State} {m : Httpd.Mask}
    (h : Matches s c conn σ) (hfd : conn.fd < setsize)
    (hserves : Serves (s.ae.loop.events conn.fd) c m) :
    σ = ⟨⟨conn.buf, conn.writeCur, m⟩, s.input conn.fd⟩ := by
  obtain ⟨⟨buf, writeCur, mask⟩, input⟩ := σ
  obtain ⟨rfl, rfl, rfl, hmask⟩ := h
  obtain rfl := hserves.mask_unique (hmask ⟨hfd, hserves.mask_ne⟩)
  rfl

/-- The entry of the descriptor is the one of connection `c`, or the registration is lost. -/
inductive Stands (l : EventLoop Proc Data) (fd c : ℕ) (m : Httpd.Mask) : Bool → Prop
  | served (hfd : fd < l.setsize) (hserves : Serves (l.events fd) c m) : Stands l fd c m false
  | lost (hnone : fd < l.setsize → (l.events fd).mask = aeNone) : Stands l fd c m true

lemma Entered.stands {l : EventLoop Proc Data} {fd c : ℕ} {mask : BitVec 32} {proc : Proc} {ok : Bool}
    {m : Httpd.Mask} (h : Entered l fd mask proc (.conn c) ok)
    (hserves : ∀ fe : FileEvent Proc Data, fe.mask = aeNone →
      Serves (fe.register mask proc (.conn c)) c m) : Stands l fd c m (!ok) := by
  cases h with
  | registered fe hfe hfd hentry =>
    refine .served hfd ?_
    rw [hentry]
    exact hserves fe hfe
  | refused hnone => exact .lost hnone

lemma Stands.entry {l : EventLoop Proc Data} {fd c : ℕ} {m : Httpd.Mask} {lost : Bool}
    (h : Stands l fd c m lost) (hfd : fd < l.setsize) :
    (l.events fd).mask = aeNone ∨ Serves (l.events fd) c m := by
  cases h with
  | served _ hserves => exact Or.inr hserves
  | lost hnone => exact Or.inl (hnone hfd)

lemma Stands.registered_iff {s : State} {conn : Conn} {c : ℕ} {m : Httpd.Mask} {lost : Bool}
    (h : Stands s.ae.loop conn.fd c m lost) (hsize : s.ae.loop.setsize = setsize) :
    Registered s conn ↔ lost = false := by
  unfold Registered
  rw [← hsize]
  cases h with
  | served hfd hserves => exact iff_of_true ⟨hfd, hserves.mask_ne⟩ rfl
  | lost hnone => exact iff_of_false (fun hreg => hreg.2 (hnone hreg.1)) Bool.noConfusion

lemma Stands.serves {s : State} {conn : Conn} {c : ℕ} {m : Httpd.Mask} {lost : Bool}
    (h : Stands s.ae.loop conn.fd c m lost) (hsize : s.ae.loop.setsize = setsize)
    (hreg : Registered s conn) : Serves (s.ae.loop.events conn.fd) c m := by
  rw [h.registered_iff hsize] at hreg
  subst hreg
  cases h with
  | served _ hserves => exact hserves

lemma failed_created (fd : ℕ) (mask : BitVec 32) (proc : Proc) (c : ℕ) (ok : Bool) :
    failed [.created fd mask proc (.conn c) ok] = lostIf c (!ok) := by
  cases ok <;> rfl

variable {s : State} {c : ℕ} {conn : Conn} {e : Effect} {ae : AeLoop.State Proc Data}
  {es : List (AeLoop.Event Proc Data)} {answer : Answer} {refused : Refused}

/-- The state of the thread after a handler -/
def Effect.state (e : Effect) (s : State) (ae : AeLoop.State Proc Data)
    (es : List (AeLoop.Event Proc Data)) : State :=
  ⟨ae, callOf es, s.listenfd, e.conns, e.next, e.input⟩

/-- The connection is closed and freed. -/
lemma moves_close (h : Inv s) (hc : s.conns c = some conn) (hreg : Registered s conn)
    {events : List Event} (a : Httpd.Action) (hes : ∀ e ∈ events, About c e)
    (hrun : run AeLoop.step s.ae ((closeConn s refused c conn.fd (s.ae.loop.events conn.fd).mask
      events).calls ++ [.ret]) = some (ae, es))
    (hsim : ∀ σ, Matches s c conn σ → ∃ σ', Httpd.step σ a = some (σ', seenOf c events) ∧
      σ'.conn.mask = .closed) :
    let e := closeConn s refused c conn.fd (s.ae.loop.events conn.fd).mask events
    Inv (e.state s ae es) ∧ Moves s (e.state s ae es) (e.events ++ failed es) := by
  have hfd' : conn.fd < s.ae.loop.setsize := by rw [h.core.size]; exact hreg.1
  obtain ⟨hchanged, hnone⟩ := changed_close h.core.sound hfd' hreg.2 refused.delete
  obtain ⟨-, hfailed, hinv, hkept⟩ := h.serves hc (by simp [closeConn, IsCall]) hrun rfl rfl
    (fun _ _ => rfl) hchanged (by simp) (Or.inl hnone)
  have hfreed : Function.update s.conns c none c = none := Function.update_self c _ _
  dsimp only
  rw [hfailed]
  refine ⟨hinv, Moves.serve c conn a events false hc hreg rfl hkept hes ?_ ?_⟩
  · intro σ hσ
    obtain ⟨σ', hstep, hclosed⟩ := hsim σ hσ
    exact ⟨σ', hstep, Or.inr ⟨hfreed, hclosed⟩⟩
  · intro conn' hconn'
    change Function.update s.conns c none c = some conn' at hconn'
    rw [hfreed] at hconn'
    cases hconn'

/-- The connection goes on in the direction `m`, unless a registration of it fails. -/
lemma moves_on (h : Inv s) (hc : s.conns c = some conn) (hreg : Registered s conn) {m : Httpd.Mask}
    {lost : Bool} {l : EventLoop Proc Data} (hcalls : ∀ a ∈ e.calls, IsCall a)
    (hfold : e.calls.foldl callLoop s.ae.loop = l) (hchanged : Changed s.ae.loop l conn.fd true)
    (hstands : Stands l conn.fd c m lost)
    (hfails : callsFail s.ae.loop e.calls = lostIf c lost) (conn' : Conn) (hconn' : conn'.fd = conn.fd)
    (hconns : e.conns = Function.update s.conns c (some conn')) (hnext : e.next = s.next)
    (hinput : ∀ fd ≠ conn.fd, e.input fd = s.input fd)
    (hrun : run AeLoop.step s.ae (e.calls ++ [.ret]) = some (ae, es)) (a : Httpd.Action)
    (hes : ∀ e' ∈ e.events, About c e')
    (hsim : ∀ σ, Matches s c conn σ →
      Httpd.step σ a = some (⟨⟨conn'.buf, conn'.writeCur, m⟩, e.input conn.fd⟩, seenOf c e.events)) :
    Inv (e.state s ae es) ∧ Moves s (e.state s ae es) (e.events ++ failed es) := by
  subst hfold
  have hsize := hchanged.size.trans h.core.size
  obtain ⟨hloop, hfailed, hinv, hkept⟩ := h.serves hc hcalls hrun hconns hnext hinput hchanged
    (fun conn₁ h₁ => by
      obtain rfl := Option.some.inj h₁
      exact ⟨hconn', rfl⟩)
    ((hstands.entry (by rw [hsize]; exact hreg.1)).imp_right fun hnew => ⟨conn', m, rfl, hnew⟩)
  change (e.state s ae es).ae.loop = _ at hloop
  rw [← hloop] at hsize
  rw [← hloop, ← hconn'] at hstands
  have hconn : (e.state s ae es).conns c = some conn' := by
    change e.conns c = some conn'
    rw [hconns, Function.update_self]
  rw [hfailed, hfails]
  refine ⟨hinv, Moves.serve c conn a _ _ hc hreg hnext hkept hes ?_ ?_⟩
  · intro σ hσ
    refine ⟨_, hsim σ hσ, Or.inl ⟨conn', hconn, rfl, rfl, ?_, hstands.serves hsize⟩⟩
    change e.input conn.fd = e.input conn'.fd
    rw [hconn']
  · intro conn₁ h₁
    rw [hconn] at h₁
    obtain rfl := Option.some.inj h₁
    exact hstands.registered_iff hsize

/-- The connection goes on in the other direction, or the registration fails. -/
lemma moves_switch (h : Inv s) (hc : s.conns c = some conn) (hreg : Registered s conn)
    (mask : BitVec 32) (hmask : mask ≠ aeNone) (proc : Proc) (m : Httpd.Mask)
    (hserves : ∀ fe : FileEvent Proc Data, fe.mask = aeNone → Serves (fe.register mask proc (.conn c)) c m)
    (hcalls : e.calls = [.delete conn.fd (s.ae.loop.events conn.fd).mask refused.delete,
      .create conn.fd mask proc (.conn c) refused.create]) (conn' : Conn) (hconn' : conn'.fd = conn.fd)
    (hconns : e.conns = Function.update s.conns c (some conn')) (hnext : e.next = s.next)
    (hinput : ∀ fd ≠ conn.fd, e.input fd = s.input fd)
    (hrun : run AeLoop.step s.ae (e.calls ++ [.ret]) = some (ae, es)) (a : Httpd.Action)
    (hes : ∀ e' ∈ e.events, About c e')
    (hsim : ∀ σ, Matches s c conn σ →
      Httpd.step σ a = some (⟨⟨conn'.buf, conn'.writeCur, m⟩, e.input conn.fd⟩, seenOf c e.events)) :
    Inv (e.state s ae es) ∧ Moves s (e.state s ae es) (e.events ++ failed es) := by
  have hfd' : conn.fd < s.ae.loop.setsize := by rw [h.core.size]; exact hreg.1
  obtain ⟨hchanged, hentered⟩ :=
    changed_switch h.core.sound hfd' hreg.2 hmask proc (.conn c) refused
  refine moves_on h hc hreg (by simp [hcalls, IsCall]) ?_ hchanged (hentered.stands hserves) ?_ conn'
    hconn' hconns hnext hinput hrun a hes hsim
  · rw [hcalls]
    rfl
  · rw [hcalls, ← failed_created conn.fd mask proc]
    exact List.append_nil _

/-- The connection goes on in the same direction. -/
lemma moves_stay (h : Inv s) (hc : s.conns c = some conn) (hfd : conn.fd < setsize) {m : Httpd.Mask}
    (hserves : Serves (s.ae.loop.events conn.fd) c m) (hcalls : e.calls = []) (conn' : Conn)
    (hconn' : conn'.fd = conn.fd) (hconns : e.conns = Function.update s.conns c (some conn'))
    (hnext : e.next = s.next) (hinput : ∀ fd ≠ conn.fd, e.input fd = s.input fd)
    (hrun : run AeLoop.step s.ae (e.calls ++ [.ret]) = some (ae, es)) (a : Httpd.Action)
    (hes : ∀ e' ∈ e.events, About c e')
    (hsim : ∀ σ, Matches s c conn σ →
      Httpd.step σ a = some (⟨⟨conn'.buf, conn'.writeCur, m⟩, e.input conn.fd⟩, seenOf c e.events)) :
    Inv (e.state s ae es) ∧ Moves s (e.state s ae es) (e.events ++ failed es) := by
  have hfd' : conn.fd < s.ae.loop.setsize := by rw [h.core.size]; exact hfd
  have hkept := changed_refl h.core.sound (h.core.owned c conn hc).2.2
  refine moves_on h hc ⟨hfd, hserves.mask_ne⟩ (by simp [hcalls]) ?_ hkept (.served hfd' hserves) ?_ conn'
    hconn' hconns hnext hinput hrun a hes hsim
  · rw [hcalls]
    rfl
  · rw [hcalls]
    rfl

/-- A `read` of the connection that its guard allows -/
lemma httpd_readable {buf input : List UInt8} {writeCur n : ℕ}
    (hguard : n ≤ Httpd.bufSize - buf.length ∧ n ≤ input.length ∧
      (n = 0 → input = [] ∨ buf.length = Httpd.bufSize)) :
    Httpd.step ⟨⟨buf, writeCur, .readable⟩, input⟩ (.readable n) =
      some (⟨Httpd.socketReadable ⟨buf, writeCur, .readable⟩ n (input.take n), input.drop n⟩, []) :=
  if_pos ⟨rfl, hguard⟩

/-- `socket_readable` is a step of its connection. -/
lemma moves_readable (h : Inv s) (hc : s.conns c = some conn) (hfd : conn.fd < setsize)
    (hserves : Serves (s.ae.loop.events conn.fd) c .readable)
    (he : socketReadable s refused c conn conn.fd answer = some e)
    (hrun : run AeLoop.step s.ae (e.calls ++ [.ret]) = some (ae, es)) :
    Inv (e.state s ae es) ∧ Moves s (e.state s ae es) (e.events ++ failed es) := by
  have hreg : Registered s conn := ⟨hfd, hserves.mask_ne⟩
  have hmask : (s.ae.loop.events conn.fd).mask = aeReadable := by
    cases hserves with
    | readable hmask _ _ => exact hmask
  cases answer with
  | read n =>
    simp only [socketReadable] at he
    split_ifs at he with hguard hpos hreceived
    · -- the request is complete
      obtain rfl := Option.some.inj he
      apply moves_switch h hc hreg aeWritable (by decide) .writeable .writable
        (fun fe hfe => serves_writable hfe c) (by rw [hmask]) { conn with buf := [], writeCur := 0 }
        rfl rfl rfl _ hrun (.readable n)
      · simp
      · intro σ hσ
        rw [hσ.eq hfd hserves, httpd_readable hguard]
        simp [Httpd.socketReadable, hpos, hreceived, seenOf]
      · intro fd hne
        exact Function.update_of_ne hne _ _
    · obtain rfl := Option.some.inj he
      apply moves_stay h hc hfd hserves rfl { conn with buf := conn.buf ++ (s.input conn.fd).take n }
        rfl rfl rfl _ hrun (.readable n)
      · simp
      · intro σ hσ
        rw [hσ.eq hfd hserves, httpd_readable hguard]
        simp [Httpd.socketReadable, hpos, hreceived, seenOf]
      · intro fd hne
        exact Function.update_of_ne hne _ _
    · obtain rfl := Option.some.inj he
      rw [← hmask] at hrun ⊢
      apply moves_close h hc hreg (.readable n) _ hrun
      · intro σ hσ
        rw [hσ.eq hfd hserves, httpd_readable hguard]
        refine ⟨_, rfl, ?_⟩
        have hn : ¬(0 : ℤ) < n := by omega
        rw [Httpd.socketReadable, if_neg hn]
      · simp
  | readError =>
    simp only [socketReadable, Option.some.injEq] at he
    obtain rfl := he
    rw [← hmask] at hrun ⊢
    apply moves_close h hc hreg .readError _ hrun
    · intro σ hσ
      rw [hσ.eq hfd hserves]
      exact ⟨_, rfl, rfl⟩
    · simp
  | _ => simp [socketReadable] at he

/-- A `write` of the connection -/
lemma httpd_writeable {buf input : List UInt8} {writeCur n : ℕ}
    (hguard : n ≤ (Httpd.response.drop writeCur).length) :
    Httpd.step ⟨⟨buf, writeCur, .writable⟩, input⟩ (.writeable (some n)) =
      some (⟨Httpd.socketWriteable ⟨buf, writeCur, .writable⟩ (some n), input⟩,
        [.sent ((Httpd.response.drop writeCur).take n)]) :=
  if_pos ⟨rfl, hguard⟩

/-- `socket_writeable` is a step of its connection. -/
lemma moves_writeable (h : Inv s) (hc : s.conns c = some conn) (hfd : conn.fd < setsize)
    (hserves : Serves (s.ae.loop.events conn.fd) c .writable)
    (he : socketWriteable s refused c conn conn.fd answer = some e)
    (hrun : run AeLoop.step s.ae (e.calls ++ [.ret]) = some (ae, es)) :
    Inv (e.state s ae es) ∧ Moves s (e.state s ae es) (e.events ++ failed es) := by
  have hreg : Registered s conn := ⟨hfd, hserves.mask_ne⟩
  have hmask : (s.ae.loop.events conn.fd).mask = aeWritable := by
    cases hserves with
    | writable hmask _ _ => exact hmask
  cases answer with
  | write n =>
    cases n with
    | none =>
      simp only [socketWriteable, Option.some.injEq] at he
      obtain rfl := he
      apply moves_stay h hc hfd hserves rfl conn rfl _ rfl (fun _ _ => rfl) hrun (.writeable none)
      · simp
      · intro σ hσ
        rw [hσ.eq hfd hserves]
        simp [Httpd.step, Httpd.socketWriteable, seenOf, seen]
      · rw [← hc, Function.update_eq_self]
    | some n =>
      simp only [socketWriteable] at he
      split_ifs at he with hguard hall
      · obtain rfl := Option.some.inj he
        apply moves_switch h hc hreg aeReadable (by decide) .readable .readable
          (fun fe hfe => serves_readable hfe c) (by rw [hmask])
          { conn with writeCur := conn.writeCur + n } rfl rfl rfl (fun _ _ => rfl) hrun
          (.writeable (some n))
        · simp
        · intro σ hσ
          rw [hσ.eq hfd hserves, httpd_writeable hguard]
          simp [Httpd.socketWriteable, hall, seenOf, seen, Conn.offered]
      · obtain rfl := Option.some.inj he
        rw [← hmask] at hrun ⊢
        apply moves_close h hc hreg (.writeable (some n)) _ hrun
        · intro σ hσ
          rw [hσ.eq hfd hserves, httpd_writeable hguard]
          refine ⟨_, by simp [seenOf, seen, Conn.offered]; rfl, ?_⟩
          simp [Httpd.socketWriteable, hall]
        · simp
  | _ => simp [socketWriteable] at he

/-- The descriptor that `accept` returns is of no connection and is not the listening one. -/
lemma Core.unused_of_closed {l : EventLoop Proc Data} {listenfd next fd : ℕ} {conns : ℕ → Option Conn}
    (h : Core l listenfd conns next) (hclosed : l.epoll.opened fd = false) :
    fd ≠ listenfd ∧ ∀ c conn, conns c = some conn → conn.fd ≠ fd := by
  constructor
  · rintro rfl
    have htrue := h.sound.opened fd (by rw [h.size]; exact h.listen_lt) (by rw [h.listen.1]; decide)
    rw [hclosed] at htrue
    cases htrue
  · rintro c conn hc rfl
    have htrue := (h.owned c conn hc).2.2
    rw [hclosed] at htrue
    cases htrue

lemma Core.conns_next {l : EventLoop Proc Data} {listenfd next : ℕ} {conns : ℕ → Option Conn}
    (h : Core l listenfd conns next) : conns next = none := by
  cases hc : conns next with
  | none => rfl
  | some conn => exact absurd (h.owned next conn hc).1 (Nat.lt_irrefl _)

/-- `socket_accept` adds a connection. -/
lemma moves_accept (h : Inv s) (he : socketAccept s refused answer = some e)
    (hrun : run AeLoop.step s.ae (e.calls ++ [.ret]) = some (ae, es)) :
    Inv (e.state s ae es) ∧ Moves s (e.state s ae es) (e.events ++ failed es) := by
  cases answer with
  | acceptError =>
    simp only [socketAccept, Option.some.injEq] at he
    obtain rfl := he
    obtain ⟨hloop, hfailed, hinv⟩ := h.returns (by simp) hrun h.core
    rw [hfailed]
    refine ⟨hinv, Moves.quiet rfl ?_⟩
    intro c
    refine ⟨rfl, fun conn _ => ⟨rfl, fun _ => ?_⟩⟩
    change ae.loop.events conn.fd = _
    rw [hloop]
    rfl
  | accepted fd input =>
    simp only [socketAccept, Option.some.injEq] at he
    obtain rfl := he
    have hclosed : s.ae.loop.epoll.opened fd = false := by
      obtain ⟨ae₁, e₁, f₁, hopen, -⟩ := (run_cons_iff _ _ _ _ _ _).mp hrun
      simp only [AeLoop.step] at hopen
      split_ifs at hopen with hguard
      simpa using hguard.2
    obtain ⟨hlisten, hopened⟩ := h.core.unused_of_closed hclosed
    have hfresh := h.core.conns_next
    obtain ⟨hchanged, hentered⟩ := changed_open h.core.sound hclosed
      (show aeReadable ≠ aeNone by decide) .readable (.conn s.next) refused.create
    set created := aeCreateFileEvent { s.ae.loop with epoll := s.ae.loop.epoll.open fd } fd aeReadable
      .readable (.conn s.next) refused.create
    have hstands := hentered.stands fun fe hfe => serves_readable hfe s.next
    have hsize := hchanged.size.trans h.core.size
    have hcore := h.core.update hchanged hlisten (c := s.next) (fun conn hc => by simp [hfresh] at hc)
      (fun c' conn' _ hc' => hopened c' conn' hc') (Nat.le_succ s.next) (Nat.lt_succ_self s.next)
      (x := some ⟨fd, [], 0⟩) (fun conn hconn => by
        obtain rfl := Option.some.inj hconn
        exact ⟨rfl, rfl⟩)
      (fun hfd => (hstands.entry (by rw [hsize]; exact hfd)).imp_right fun hnew => ⟨_, _, rfl, hnew⟩)
    obtain ⟨hloop, hfailed, hinv⟩ := h.returns (by simp [IsCall]) hrun hcore
    change ae.loop = created.1 at hloop
    have hlost : failed es = lostIf s.next (!created.2) := by
      rw [hfailed, ← failed_created fd aeReadable .readable]
      exact List.append_nil _
    rw [← hloop] at hsize hstands hchanged
    rw [hlost]
    refine ⟨hinv, Moves.accept fd input _ rfl ?_ ?_ ⟨rfl, rfl, ?_, hstands.serves hsize⟩
      (hstands.registered_iff hsize)⟩
    · intro c hc
      refine ⟨Function.update_of_ne (by omega) _ _, ?_⟩
      intro conn hconn
      have hne := hopened c conn hconn
      exact ⟨Function.update_of_ne hne _ _, fun _ => hchanged.other conn.fd hne⟩
    · change Function.update s.conns s.next _ s.next = _
      rw [Function.update_self]
    · change input = Function.update s.input fd input fd
      rw [Function.update_self]
  | _ => simp [socketAccept] at he

/-- A step of the thread keeps its invariant and is a move of its connections. -/
lemma moves_of_step {s' : State} {a : Action} {events : List Event} (h : Inv s)
    (hstep : step s a = some (s', events)) : Inv s' ∧ Moves s s' events := by
  have hquiet : ∀ {ae : AeLoop.State Proc Data} {running : Option Call}, ae.loop = s.ae.loop →
      Moves s { s with ae := ae, running := running } [] := by
    intro ae running hloop
    refine Moves.quiet (by rfl) ?_
    intro c
    refine ⟨rfl, fun conn _ => ⟨rfl, fun _ => ?_⟩⟩
    change ae.loop.events conn.fd = _
    rw [hloop]
  cases a with
  | poll evs =>
    simp only [step, Option.map_eq_some_iff] at hstep
    obtain ⟨⟨ae, es⟩, hae, heq⟩ := hstep
    obtain ⟨rfl, rfl⟩ := Prod.mk.inj heq
    simp only [AeLoop.step] at hae
    split_ifs at hae with hcond
    obtain ⟨rfl, rfl⟩ := Prod.mk.inj (Option.some.inj hae)
    have hrunning := h.running
    rw [hcond.1] at hrunning
    refine ⟨⟨h.core, ?_, hrunning⟩, hquiet rfl⟩
    intro f hf
    obtain ⟨ev, hev, rfl⟩ := List.mem_map.mp hf
    obtain ⟨ee, hee, -⟩ := hcond.2.2.2.2 ev hev
    by_contra hge
    have hnone := h.core.sound.outside ev.fd
      (by rw [h.core.size]; exact Nat.le_of_not_lt hge)
    rw [hnone] at hee
    cases hee
  | next =>
    simp only [step, Option.map_eq_some_iff] at hstep
    obtain ⟨⟨ae, es⟩, hae, heq⟩ := hstep
    obtain ⟨rfl, rfl⟩ := Prod.mk.inj heq
    obtain ⟨hloop, hrunning, hpending, -⟩ := dispatched_next hae
    refine ⟨⟨?_, fun f hf => h.pending f (hpending f hf), hrunning⟩, hquiet hloop⟩
    change Core ae.loop s.listenfd s.conns s.next
    rw [hloop]
    exact h.core
  | handle answer refused =>
    simp only [step] at hstep
    cases hcall : s.running with
    | none => simp [hcall] at hstep
    | some call =>
      simp only [hcall] at hstep
      cases he : handle s call refused answer with
      | none => simp [he] at hstep
      | some e =>
        simp only [he, Option.map_eq_some_iff] at hstep
        obtain ⟨⟨ae, es⟩, hrun, heq⟩ := hstep
        obtain ⟨rfl, rfl⟩ := Prod.mk.inj heq
        cases h.called hcall with
        | listen => exact moves_accept h he hrun
        | readable c conn hc hfd hserves =>
          simp only [handle, hc] at he
          exact moves_readable h hc hfd hserves he hrun
        | writeable c conn hc hfd hserves =>
          simp only [handle, hc] at he
          exact moves_writeable h hc hfd hserves he hrun

lemma inv_threadMain {memory : ℕ → FileEvent Proc Data} {opened : ℕ → Bool} {listenfd : ℕ}
    {refused : Bool} (h : threadMain memory opened listenfd refused = some s) : Inv s := by
  unfold threadMain at h
  dsimp only at h
  split_ifs at h with hok
  obtain rfl := Option.some.inj h
  have hsound := (synced_create setsize memory (Function.update opened listenfd true)).toSound
  have hmask : aeReadable ≠ aeNone := by decide
  have hopen : (aeCreateEventLoop setsize memory
      (Function.update opened listenfd true)).epoll.opened listenfd = true := by
    change Function.update opened listenfd true listenfd = true
    rw [Function.update_self]
  obtain ⟨hchanged, hentry⟩ := changed_create hsound hopen hmask .accept .thread refused
  rcases hentry with ⟨herr, -⟩ | ⟨-, hlt, hentry⟩
  · rw [herr] at hok
    cases hok
  · have hfree : ∀ fd < setsize, ((aeCreateEventLoop setsize memory
        (Function.update opened listenfd true)).events fd).mask = aeNone := by
      intro fd hfd
      simp [aeCreateEventLoop, hfd]
    change listenfd < setsize at hlt
    refine ⟨⟨hchanged.sound, hchanged.size, hlt, ?_, ?_, by simp, by simp⟩, by simp [Pc.pending], rfl⟩
    · dsimp only
      rw [hentry]
      refine ⟨?_, rfl, rfl⟩
      change _ ||| aeReadable = aeReadable
      rw [hfree listenfd hlt]
      rfl
    · intro fd hfd hne
      left
      dsimp only
      rw [hchanged.other fd hne]
      exact hfree fd hfd

/-- What a history keeps of the connections -/
structure History (s : State) (es : List Event) : Prop where
  inv : Inv s
  noFault : .fault ∉ es
  fresh : ∀ c, s.next ≤ c → ∀ e ∈ es, ¬About c e ∧ e ≠ .unregistered c
  registered : ∀ c conn, s.conns c = some conn → (Registered s conn ↔ .unregistered c ∉ es)
  dropped : EachEvent (fun fs e => ∀ c, About c e → .unregistered c ∉ fs) es
  alone : ∀ c fd input, .accepted c fd input ∈ es → c < s.next ∧
    ∃ acts σ, run Httpd.step (Httpd.start input) acts = some (σ, seenOf c es) ∧ Continues s c σ
  unserved : ∀ c fd input, .accepted c fd input ∈ es → setsize ≤ fd →
    s.conns c = some ⟨fd, [], 0⟩ ∧ ∀ e ∈ es, ¬About c e

lemma seenOf_append (c : ℕ) (es fs : List Event) : seenOf c (es ++ fs) = seenOf c es ++ seenOf c fs :=
  List.filterMap_append

lemma Continues.kept {s' : State} {σ : Httpd.State} (h : Continues s c σ) (hkept : Kept s s' c) :
    Continues s' c σ := by
  rcases h with ⟨conn, hc, hm⟩ | ⟨hc, hclosed⟩
  · exact Or.inl ⟨conn, hkept.1.trans hc, hm.kept hc hkept⟩
  · exact Or.inr ⟨hkept.1.trans hc, hclosed⟩

lemma not_about_lostIf (c c' : ℕ) (lost : Bool) : ∀ e ∈ lostIf c' lost, ¬About c e := by
  intro e he
  rw [(mem_lostIf.mp he).2]
  exact not_about_unregistered c c'

/-- Events that are about no connection drop none. -/
lemma eachEvent_of_not_about {es fs : List Event} (h : ∀ c, ∀ e ∈ fs, ¬About c e) :
    EachEvent (fun gs e => ∀ c, About c e → .unregistered c ∉ es ++ gs) fs := by
  rintro gs e hs rfl c habout
  exact absurd habout (h c e (List.mem_append_right gs List.mem_cons_self))

lemma History.quiet {s' : State} {es : List Event} (h : History s es) (hinv : Inv s')
    (hnext : s'.next = s.next) (hkept : ∀ c, Kept s s' c) : History s' es := by
  refine ⟨hinv, h.noFault, by rw [hnext]; exact h.fresh, ?_, h.dropped, ?_, ?_⟩
  · intro c conn hc
    rw [(hkept c).1] at hc
    rw [(hkept c).registered_iff hc]
    exact h.registered c conn hc
  · intro c fd input hmem
    obtain ⟨hlt, acts, σ, hrun, hcont⟩ := h.alone c fd input hmem
    exact ⟨by omega, acts, σ, hrun, hcont.kept (hkept c)⟩
  · intro c fd input hmem hfd
    rw [(hkept c).1]
    exact h.unserved c fd input hmem hfd

lemma History.accept {s' : State} {es : List Event} (h : History s es) (hinv : Inv s') (fd : ℕ)
    (input : List UInt8) (lost : Bool) (hnext : s'.next = s.next + 1)
    (hkept : ∀ c < s.next, Kept s s' c) (hnew : s'.conns s.next = some ⟨fd, [], 0⟩)
    (hmatch : Matches s' s.next ⟨fd, [], 0⟩ (Httpd.start input))
    (hlost : Registered s' ⟨fd, [], 0⟩ ↔ lost = false) :
    History s' (es ++ .accepted s.next fd input :: lostIf s.next lost) := by
  have hfresh := h.fresh s.next (Nat.le_refl _)
  have habout : ∀ c, ∀ e ∈ Event.accepted s.next fd input :: lostIf s.next lost, ¬About c e :=
    fun c => List.forall_mem_cons.mpr ⟨not_about_accepted _ _ _ _, not_about_lostIf c s.next lost⟩
  have hmemLost : ∀ c, .unregistered c ∈ Event.accepted s.next fd input :: lostIf s.next lost ↔
      lost = true ∧ c = s.next := by
    intro c
    simp [mem_lostIf]
  have hmemNew : ∀ c fd' input', .accepted c fd' input' ∈
      es ++ .accepted s.next fd input :: lostIf s.next lost →
      .accepted c fd' input' ∈ es ∨ c = s.next ∧ fd' = fd ∧ input' = input := by
    intro c fd' input' hmem
    simpa [mem_lostIf] using hmem
  refine ⟨hinv, ?_, ?_, ?_, h.dropped.append (eachEvent_of_not_about habout), ?_, ?_⟩
  · simp [h.noFault, mem_lostIf]
  · intro c hc
    refine List.forall_mem_append.mpr ⟨h.fresh c (by omega), fun e he => ⟨habout c e he, ?_⟩⟩
    rintro rfl
    have heq := ((hmemLost c).mp he).2
    omega
  · intro c conn hc
    rw [List.mem_append, not_or, hmemLost]
    by_cases hcn : c = s.next
    · subst hcn
      rw [hnew] at hc
      obtain rfl := Option.some.inj hc
      rw [hlost]
      have hnone : .unregistered s.next ∉ es := fun hmem => (hfresh _ hmem).2 rfl
      simp [hnone]
    · have hlt : c < s.next := by
        have := (hinv.core.owned c conn hc).1
        omega
      rw [(hkept c hlt).1] at hc
      rw [(hkept c hlt).registered_iff hc, h.registered c conn hc]
      simp [hcn]
  · intro c fd' input' hmem
    rw [seenOf_append, seenOf_eq_nil (habout c), List.append_nil]
    rcases hmemNew c fd' input' hmem with hold | ⟨rfl, rfl, rfl⟩
    · obtain ⟨hlt, acts, σ, hrun, hcont⟩ := h.alone c fd' input' hold
      exact ⟨by omega, acts, σ, hrun, hcont.kept (hkept c hlt)⟩
    · refine ⟨by omega, [], Httpd.start input', ?_, Or.inl ⟨_, hnew, hmatch⟩⟩
      rw [seenOf_eq_nil fun e he => (hfresh e he).1]
      rfl
  · intro c fd' input' hmem hfd'
    rcases hmemNew c fd' input' hmem with hold | ⟨rfl, rfl, rfl⟩
    · obtain ⟨hc, hes⟩ := h.unserved c fd' input' hold hfd'
      rw [(hkept c (h.alone c fd' input' hold).1).1]
      exact ⟨hc, List.forall_mem_append.mpr ⟨hes, habout c⟩⟩
    · exact ⟨hnew, List.forall_mem_append.mpr ⟨fun e he => (hfresh e he).1, habout s.next⟩⟩

lemma about_or_unregistered {fs : List Event} (hes : ∀ e ∈ fs, About c e) {lost : Bool} {e : Event}
    (he : e ∈ fs ++ lostIf c lost) : About c e ∨ lost = true ∧ e = .unregistered c := by
  rcases List.mem_append.mp he with he | he
  · exact Or.inl (hes e he)
  · exact Or.inr (mem_lostIf.mp he)

lemma not_about_of_ne {fs : List Event} (hes : ∀ e ∈ fs, About c e) {lost : Bool} {c' : ℕ}
    (hne : c' ≠ c) : ∀ e ∈ fs ++ lostIf c lost, ¬About c' e := by
  refine List.forall_mem_append.mpr ⟨?_, not_about_lostIf c' c lost⟩
  exact fun e he habout => hne ((hes e he).unique habout)

lemma unregistered_mem_iff {fs : List Event} (hes : ∀ e ∈ fs, About c e) {lost : Bool} (c' : ℕ) :
    .unregistered c' ∈ fs ++ lostIf c lost ↔ lost = true ∧ c' = c := by
  constructor
  · intro hmem
    rcases about_or_unregistered hes hmem with habout | ⟨hlost, heq⟩
    · exact absurd habout (not_about_unregistered c c')
    · exact ⟨hlost, by simpa using heq⟩
  · rintro ⟨hlost, rfl⟩
    exact List.mem_append_right fs (mem_lostIf.mpr ⟨hlost, rfl⟩)

/-- The event of the failure is the last one of the step. -/
lemma eachEvent_served {es fs : List Event} (hes : ∀ e ∈ fs, About c e) (lost : Bool)
    (hregistered : .unregistered c ∉ es) :
    EachEvent (fun gs e => ∀ c', About c' e → .unregistered c' ∉ es ++ gs) (fs ++ lostIf c lost) := by
  rintro gs e hs heq c' habout hmem
  have he : e ∈ fs ++ lostIf c lost := by
    rw [heq]
    exact List.mem_append_right gs List.mem_cons_self
  obtain rfl : c' = c := by
    by_contra hne
    exact not_about_of_ne hes hne e he habout
  rcases List.mem_append.mp hmem with hmem | hmem
  · exact hregistered hmem
  · rcases List.append_eq_append_iff.mp heq with ⟨ks, rfl, hks⟩ | ⟨ks, rfl, hks⟩
    · have hlast : e ∈ lostIf c' lost := by
        rw [hks]
        exact List.mem_append_right ks List.mem_cons_self
      exact not_about_lostIf c' c' lost e hlast habout
    · exact not_about_unregistered c' c' (hes _ (List.mem_append_left ks hmem))

lemma History.serve {s' : State} {es fs : List Event} (h : History s es) (hinv : Inv s')
    (a : Httpd.Action) (lost : Bool) (hc : s.conns c = some conn) (hreg : Registered s conn)
    (hnext : s'.next = s.next) (hkept : ∀ c' ≠ c, Kept s s' c') (hes : ∀ e ∈ fs, About c e)
    (hsim : ∀ σ, Matches s c conn σ → ∃ σ', Httpd.step σ a = some (σ', seenOf c fs) ∧
      Continues s' c σ')
    (hlost : ∀ conn', s'.conns c = some conn' → (Registered s' conn' ↔ lost = false)) :
    History s' (es ++ (fs ++ lostIf c lost)) := by
  have hlt := (h.inv.core.owned c conn hc).1
  have hregistered := (h.registered c conn hc).mp hreg
  have hold : ∀ c' fd' input', .accepted c' fd' input' ∈ es ++ (fs ++ lostIf c lost) →
      .accepted c' fd' input' ∈ es := by
    intro c' fd' input' hmem
    rcases List.mem_append.mp hmem with hmem | hmem
    · exact hmem
    · rcases about_or_unregistered hes hmem with habout | ⟨-, heq⟩
      · exact absurd habout (not_about_accepted _ _ _ _)
      · cases heq
  refine ⟨hinv, ?_, ?_, ?_, h.dropped.append (eachEvent_served hes lost hregistered), ?_, ?_⟩
  · intro hmem
    rcases List.mem_append.mp hmem with hmem | hmem
    · exact h.noFault hmem
    · rcases about_or_unregistered hes hmem with habout | ⟨-, heq⟩
      · exact absurd habout (not_about_fault c)
      · cases heq
  · intro c' hc'
    have hne : c' ≠ c := by omega
    refine List.forall_mem_append.mpr ⟨h.fresh c' (by omega), fun e he =>
      ⟨not_about_of_ne hes hne e he, ?_⟩⟩
    rintro rfl
    exact hne ((unregistered_mem_iff hes c').mp he).2
  · intro c' conn' hc'
    rw [List.mem_append, not_or, unregistered_mem_iff hes]
    by_cases heq : c' = c
    · subst heq
      rw [hlost conn' hc']
      simp [hregistered]
    · rw [(hkept c' heq).1] at hc'
      rw [(hkept c' heq).registered_iff hc', h.registered c' conn' hc']
      simp [heq]
  · intro c' fd' input' hmem
    obtain ⟨hlt', acts, σ, hrun, hcont⟩ := h.alone c' fd' input' (hold c' fd' input' hmem)
    refine ⟨by omega, ?_⟩
    by_cases heq : c' = c
    · subst heq
      -- the step of the connection is appended to its run
      rcases hcont with ⟨conn', hc', hmatch⟩ | ⟨hnone, -⟩
      · rw [hc] at hc'
        obtain rfl := Option.some.inj hc'
        obtain ⟨σ', hstep, hcont'⟩ := hsim σ hmatch
        refine ⟨acts ++ [a], σ', ?_, hcont'⟩
        rw [seenOf_append, seenOf_append, seenOf_eq_nil (not_about_lostIf c' c' lost), List.append_nil,
          run_append_iff]
        refine ⟨σ, _, _, hrun, ?_, rfl⟩
        exact (run_cons_iff _ _ _ _ _ _).mpr ⟨σ', _, [], hstep, rfl, by rw [List.append_nil]⟩
      · rw [hc] at hnone
        cases hnone
    · refine ⟨acts, σ, ?_, hcont.kept (hkept c' heq)⟩
      rw [seenOf_append, seenOf_eq_nil (not_about_of_ne hes heq), List.append_nil]
      exact hrun
  · intro c' fd' input' hmem hfd'
    obtain ⟨hc', hes'⟩ := h.unserved c' fd' input' (hold c' fd' input' hmem) hfd'
    have hne : c' ≠ c := by
      rintro rfl
      rw [hc] at hc'
      obtain rfl := Option.some.inj hc'
      exact absurd hreg.1 (Nat.not_lt.mpr hfd')
    rw [(hkept c' hne).1]
    exact ⟨hc', List.forall_mem_append.mpr ⟨hes', not_about_of_ne hes hne⟩⟩

lemma History.moves {s' : State} {es fs : List Event} (h : History s es) (hinv : Inv s')
    (hm : Moves s s' fs) : History s' (es ++ fs) := by
  cases hm with
  | quiet hnext hkept =>
    rw [List.append_nil]
    exact h.quiet hinv hnext hkept
  | accept fd input lost hnext hkept hnew hmatch hlost =>
    exact h.accept hinv fd input lost hnext hkept hnew hmatch hlost
  | serve c conn a fs lost hc hreg hnext hkept hes hsim hlost =>
    exact h.serve hinv a lost hc hreg hnext hkept hes hsim hlost

lemma history_run {memory : ℕ → FileEvent Proc Data} {opened : ℕ → Bool} {listenfd : ℕ}
    {refused : Bool} {t : State} {as : List Action} {es : List Event}
    (hstart : threadMain memory opened listenfd refused = some s)
    (hrun : run step s as = some (t, es)) : History t es := by
  have hinit : History s [] := by
    refine ⟨inv_threadMain hstart, by simp, by simp, ?_, eachEvent_nil _, by simp, by simp⟩
    intro c conn hc
    have hnone : s.conns c = none := by
      unfold threadMain at hstart
      dsimp only at hstart
      split_ifs at hstart
      obtain rfl := Option.some.inj hstart
      rfl
    rw [hnone] at hc
    cases hc
  apply run_invariant_events step History _ hinit hrun
  intro u fs a u' gs hu hstep
  obtain ⟨hinv, hm⟩ := moves_of_step hu.inv hstep
  exact hu.moves hinv hm

/-- In every run of a server thread, for any clients and any results of the system calls: a handler is
called only for the listening socket or for a connection that has not been freed, in the direction it
waits for. An open connection is registered for exactly one direction, its entry belonging to no other
connection, if and only if none of its registrations has failed, and after a failure nothing is read
from it or sent to it and it is not closed. -/
theorem server_calls_live_connections (memory : ℕ → FileEvent Proc Data) (opened : ℕ → Bool)
    (listenfd : ℕ) (refused : Bool) (s t : State) (as : List Action) (es : List Event)
    (hstart : threadMain memory opened listenfd refused = some s)
    (hrun : run step s as = some (t, es)) :
    .fault ∉ es ∧ (∀ call, t.running = some call → Called t call) ∧
      Core t.ae.loop t.listenfd t.conns t.next ∧
      (∀ c conn, t.conns c = some conn →
        ((conn.fd < setsize ∧ ∃ m, Serves (t.ae.loop.events conn.fd) c m) ↔ .unregistered c ∉ es)) ∧
      EachEvent (fun fs e => ∀ c, About c e → .unregistered c ∉ fs) es := by
  have h := history_run hstart hrun
  refine ⟨h.noFault, fun call hcall => h.inv.called hcall, h.inv.core, fun c conn hc => ?_, h.dropped⟩
  rw [← h.registered c conn hc]
  refine and_congr_right fun hfd => ⟨fun hserves => ?_, h.inv.core.serves hc hfd⟩
  obtain ⟨m, hm⟩ := hserves
  exact hm.mask_ne

/-- The table of a new loop, before it is initialised -/
def newTable : ℕ → FileEvent Proc Data := fun _ => ⟨0#32, none, none, none⟩

/-- No other descriptor is open. -/
def noneOpen : ℕ → Bool := fun _ => false

/-- One client sends an empty request; its request is read and the socket then takes no byte. The second
client's socket is not registered. -/
def requestRun : List Action :=
  [.poll [⟨3, true, false, false, false⟩], .next, .handle (.accepted 5 [13, 10, 13, 10]) ⟨false, false⟩,
    .next, .poll [⟨5, true, false, false, false⟩], .next, .handle (.read 4) ⟨false, false⟩, .next,
    .poll [⟨3, true, false, false, false⟩, ⟨5, false, true, false, false⟩], .next,
    .handle (.accepted 6 [65]) ⟨false, true⟩, .next, .handle (.write none) ⟨false, false⟩]

theorem server_calls_live_connections_one_request :
    ∃ s t es, threadMain newTable noneOpen 3 false = some s ∧ run step s requestRun = some (t, es) ∧
      es = [.accepted 0 5 [13, 10, 13, 10], .accepted 1 6 [65], .unregistered 1, .sent 0 []] ∧
      Core t.ae.loop 3 t.conns 2 :=
  ⟨_, _, _, rfl, rfl, rfl,
    (server_calls_live_connections newTable noneOpen 3 false _ _ requestRun _ rfl rfl).2.2.1⟩

/-- In every run of a server thread, each connection has run as one connection alone: some run of the
model of a single connection, on the bytes of its client, sends exactly what the thread has sent to
this client, and ends in the state in which the thread has left the connection; if no registration of an
open connection has failed, it is registered for the direction of that state. -/
theorem server_serves_each_connection_alone (memory : ℕ → FileEvent Proc Data) (opened : ℕ → Bool)
    (listenfd : ℕ) (refused : Bool) (s t : State) (as : List Action) (es : List Event) (c fd : ℕ)
    (input : List UInt8) (hstart : threadMain memory opened listenfd refused = some s)
    (hrun : run step s as = some (t, es)) (haccepted : .accepted c fd input ∈ es) :
    ∃ acts σ, run Httpd.step (Httpd.start input) acts = some (σ, seenOf c es) ∧ Continues t c σ ∧
      (.unregistered c ∉ es → ∀ conn, t.conns c = some conn →
        Serves (t.ae.loop.events conn.fd) c σ.conn.mask) := by
  have h := history_run hstart hrun
  obtain ⟨-, acts, σ, hσ, hcont⟩ := h.alone c fd input haccepted
  refine ⟨acts, σ, hσ, hcont, fun hnone conn hc => ?_⟩
  rcases hcont with ⟨conn', hc', hmatch⟩ | ⟨hfreed, -⟩
  · rw [hc] at hc'
    obtain rfl := Option.some.inj hc'
    exact hmatch.mask ((h.registered c conn hc).mpr hnone)
  · rw [hc] at hfreed
    cases hfreed

theorem server_serves_each_connection_alone_one_request :
    ∃ s t es, threadMain newTable noneOpen 3 false = some s ∧ run step s requestRun = some (t, es) ∧
      seenOf 0 es = [.sent []] ∧
      ∃ acts σ, run Httpd.step (Httpd.start [13, 10, 13, 10]) acts = some (σ, seenOf 0 es) ∧
        Continues t 0 σ ∧ (.unregistered 0 ∉ es → ∀ conn, t.conns 0 = some conn →
          Serves (t.ae.loop.events conn.fd) 0 σ.conn.mask) :=
  ⟨_, _, _, rfl, rfl, rfl, server_serves_each_connection_alone newTable noneOpen 3 false _ _ requestRun _
    0 5 [13, 10, 13, 10] rfl rfl List.mem_cons_self⟩

/-- `socket_accept` ignores the result of `aeCreateFileEvent`: a connection whose descriptor is not below
the size of the set is never read, answered or closed, in any run. -/
theorem descriptor_beyond_set_is_never_served (memory : ℕ → FileEvent Proc Data) (opened : ℕ → Bool)
    (listenfd : ℕ) (refused : Bool) (s t : State) (as : List Action) (es : List Event) (c fd : ℕ)
    (input : List UInt8) (hstart : threadMain memory opened listenfd refused = some s)
    (hrun : run step s as = some (t, es)) (haccepted : .accepted c fd input ∈ es)
    (hfd : setsize ≤ fd) :
    t.conns c = some ⟨fd, [], 0⟩ ∧ t.ae.loop.epoll.opened fd = true ∧ ∀ e ∈ es, ¬About c e := by
  have h := history_run hstart hrun
  obtain ⟨hc, hes⟩ := h.unserved c fd input haccepted hfd
  exact ⟨hc, (h.inv.core.owned c _ hc).2.2, hes⟩

/-- Descriptor 1024 is accepted, and the client has sent a request. -/
def beyondRun : List Action :=
  [.poll [⟨3, true, false, false, false⟩], .next,
    .handle (.accepted 1024 [13, 10, 13, 10]) ⟨false, false⟩, .next]

theorem descriptor_beyond_set_is_never_served_first :
    ∃ s t es, threadMain newTable noneOpen 3 false = some s ∧ run step s beyondRun = some (t, es) ∧
      t.conns 0 = some ⟨1024, [], 0⟩ ∧ t.ae.loop.epoll.opened 1024 = true ∧ ∀ e ∈ es, ¬About 0 e :=
  ⟨_, _, _, rfl, rfl, descriptor_beyond_set_is_never_served newTable noneOpen 3 false _ _ beyondRun _ 0
    1024 [13, 10, 13, 10] rfl rfl List.mem_cons_self (by decide)⟩

end CodeC.HttpdThread
