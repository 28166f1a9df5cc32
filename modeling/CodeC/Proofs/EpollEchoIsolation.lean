import CodeC.EpollEcho

/-!
# When the clients of `tcp_echo_server_epoll.c` get their own bytes back

The buffer and its length belong to the loop and not to a connection. A client gets back what it
sent as long as no `read` overwrites bytes that a connected client still waits for.
-/

namespace CodeC.EpollEcho
open Library

variable {κ : Type} [DecidableEq κ]

/-- The bytes received from a client and the bytes written to it so far. -/
structure Log where
  received : List UInt8
  written : List UInt8

def record (h : κ → Log) : Event κ → κ → Log
  | .received c bytes => Function.update h c { h c with received := (h c).received ++ bytes }
  | .written c bytes => Function.update h c { h c with written := (h c).written ++ bytes }

def history (es : List (Event κ)) : κ → Log := observe record (fun _ => ⟨[], []⟩) es

lemma history_append (es fs : List (Event κ)) :
    history (es ++ fs) = observe record (history es) fs :=
  observe_append record (fun _ => ⟨[], []⟩) es fs

/-- Every client has been sent a prefix of what it has sent. -/
def Echoes (h : κ → Log) : Prop := ∀ c, (h c).written <+: (h c).received

/-- `read` returns data while `buf` holds bytes and a connected client is registered for
`EPOLLOUT`. -/
def Clobbers (s : State κ) (a : Action κ) : Prop :=
  ∃ bytes, a = .read bytes ∧ bytes ≠ [] ∧ s.buf ≠ [] ∧ ∃ c, s.interest c = .registered true

/-- Every step of the loop, with its guard and its effect. -/
inductive Move (s : State κ) : Action κ → State κ → List (Event κ) → Prop
  | wait (ev : List (Ready κ)) (hr : ∀ e ∈ ev, reported s e = true) :
    Move s (.wait ev) { s with ev := ev } []
  | accept (c : κ) (hc : s.interest c = .unborn) : Move s (.accept c) (accept s c) []
  | eof (c : κ) (out : Bool) (rest : List (Ready κ)) (hs : s.ev = ⟨some c, true, out⟩ :: rest) :
    Move s (.read []) { s with interest := Function.update s.interest c .closed, ev := [] } []
  | read (c : κ) (out : Bool) (rest : List (Ready κ)) (bytes : List UInt8)
      (hs : s.ev = ⟨some c, true, out⟩ :: rest) (hne : bytes ≠ []) :
    Move s (.read bytes)
      { interest := Function.update s.interest c (.registered true), buf := bytes, ev := [] }
      [.received c bytes]
  | write (c : κ) (rest : List (Ready κ)) (hs : s.ev = ⟨some c, false, true⟩ :: rest)
      (hbuf : s.buf ≠ []) :
    Move s .next (write s c).1 (write s c).2
  | skip (e : Ready κ) (rest : List (Ready κ)) (hs : s.ev = e :: rest) :
    Move s .next { s with ev := rest } []

theorem step_move {s s' : State κ} {a : Action κ} {es : List (Event κ)}
    (h : step s a = some (s', es)) : Move s a s' es := by
  cases a with
  | wait ev =>
    obtain ⟨⟨-, -, -, hr⟩, h⟩ := Option.ite_none_right_eq_some.mp h
    obtain ⟨rfl, rfl⟩ := Prod.mk.inj (Option.some.inj h)
    exact .wait ev (List.all_eq_true.mp hr)
  | accept c =>
    simp only [step] at h
    split at h
    · obtain ⟨hc, h⟩ := Option.ite_none_right_eq_some.mp h
      obtain ⟨rfl, rfl⟩ := Prod.mk.inj (Option.some.inj h)
      exact .accept c hc
    · cases h
  | read bytes =>
    simp only [step] at h
    split at h
    next c out rest hs =>
      obtain ⟨-, h⟩ := Option.ite_none_right_eq_some.mp h
      unfold read at h
      by_cases hne : bytes = []
      · rw [if_pos hne] at h
        obtain ⟨rfl, rfl⟩ := Prod.mk.inj (Option.some.inj h)
        rw [hne]
        exact .eof c out rest hs
      · rw [if_neg hne] at h
        obtain ⟨rfl, rfl⟩ := Prod.mk.inj (Option.some.inj h)
        exact .read c out rest bytes hs hne
    · cases h
  | next =>
    simp only [step] at h
    split at h
    next c rest hs =>
      by_cases hbuf : s.buf = []
      · rw [if_neg (not_not.mpr hbuf)] at h
        obtain ⟨rfl, rfl⟩ := Prod.mk.inj (Option.some.inj h)
        exact .skip _ rest hs
      · rw [if_pos hbuf] at h
        obtain ⟨rfl, rfl⟩ := Prod.mk.inj (Option.some.inj h)
        exact .write c rest hs hbuf
    next hs =>
      obtain ⟨rfl, rfl⟩ := Prod.mk.inj (Option.some.inj h)
      exact .skip _ _ hs
    · cases h

/-- What the server owes a client: nothing, or the bytes in `buf` when the client is registered for
`EPOLLOUT`. A closed client may have missed the end. -/
def Owes (buf : List UInt8) (log : Log) : Interest → Prop
  | .unborn => log.written = log.received
  | .registered false => log.written = log.received
  | .registered true => buf ≠ [] ∧ log.written ++ buf = log.received
  | .closed => log.written <+: log.received

lemma Owes.echoes {buf : List UInt8} {log : Log} {i : Interest} (h : Owes buf log i) :
    log.written <+: log.received := by
  have hsame : log.written = log.received → log.written <+: log.received := fun heq =>
    heq ▸ List.prefix_rfl
  rcases i with _ | (_ | _) | _
  · exact hsame h
  · exact hsame h
  · exact ⟨buf, h.2⟩
  · exact h

/-- Only the client that is registered for `EPOLLOUT` depends on `buf`. -/
lemma Owes.of_not_out {buf buf' : List UInt8} {log : Log} {i : Interest} (h : Owes buf log i)
    (hi : i ≠ .registered true) : Owes buf' log i := by
  rcases i with _ | (_ | _) | _
  · exact h
  · exact h
  · exact absurd rfl hi
  · exact h

structure Inv (s : State κ) (h : κ → Log) : Prop where
  reported : ∀ e ∈ s.ev, reported s e = true
  owes : ∀ c, Owes s.buf (h c) (s.interest c)
  unique : ∀ c c', s.interest c = .registered true → s.interest c' = .registered true → c = c'

lemma inv_start : Inv (start : State κ) (history []) :=
  ⟨by simp [start], by simp [start, history, Owes], by simp [start]⟩

/-- A client that is no longer, or not yet, registered for `EPOLLOUT` does not compete. -/
lemma Inv.unique_update {s : State κ} {h : κ → Log} (hinv : Inv s h) (c : κ) {i : Interest}
    (hi : i ≠ .registered true) :
    ∀ d d', Function.update s.interest c i d = .registered true →
      Function.update s.interest c i d' = .registered true → d = d' := by
  have hold : ∀ e, Function.update s.interest c i e = .registered true →
      s.interest e = .registered true := by
    intro e he
    have hec : e ≠ c := by
      rintro rfl
      exact hi (by simpa using he)
    rwa [Function.update_of_ne hec] at he
  exact fun d d' hd hd' => hinv.unique d d' (hold d hd) (hold d' hd')

omit [DecidableEq κ] in
lemma interest_of_readable {s : State κ} {h : κ → Log} (hinv : Inv s h) {c : κ} {out : Bool}
    {rest : List (Ready κ)} (hs : s.ev = ⟨some c, true, out⟩ :: rest) :
    ∃ o, s.interest c = .registered o := by
  have hr := hinv.reported _ (by rw [hs]; exact List.mem_cons_self ..)
  unfold EpollEcho.reported at hr
  cases hi : s.interest c with
  | registered o => exact ⟨o, rfl⟩
  | _ => simp [hi] at hr

omit [DecidableEq κ] in
lemma interest_of_writable {s : State κ} {h : κ → Log} (hinv : Inv s h) {c : κ}
    {rest : List (Ready κ)} (hs : s.ev = ⟨some c, false, true⟩ :: rest) :
    s.interest c = .registered true := by
  have hr := hinv.reported _ (by rw [hs]; exact List.mem_cons_self ..)
  unfold EpollEcho.reported at hr
  cases hi : s.interest c with
  | registered o => simpa [hi] using hr
  | _ => simp [hi] at hr

lemma inv_move {s s' : State κ} {h : κ → Log} {a : Action κ} {es : List (Event κ)}
    (hok : ¬Clobbers s a) (hinv : Inv s h) (hm : Move s a s' es) :
    Inv s' (observe record h es) := by
  cases hm with
  | wait ev hr => exact ⟨hr, hinv.owes, hinv.unique⟩
  | accept c hc =>
    refine ⟨by simp [accept], fun d => ?_, hinv.unique_update c (by simp)⟩
    by_cases hdc : d = c
    · have howes := hinv.owes c
      rw [hc] at howes
      simpa [accept, hdc, Owes] using howes
    · simpa [accept, hdc] using hinv.owes d
  | eof c out rest hs =>
    refine ⟨by simp, fun d => ?_, hinv.unique_update c (by simp)⟩
    by_cases hdc : d = c
    · simpa [hdc, Owes] using (hinv.owes c).echoes
    · simpa [hdc] using hinv.owes d
  | read c out rest bytes hs hne =>
    -- nobody waits for what was in the buffer
    have hnone : ∀ d, s.interest d ≠ .registered true := by
      intro d hd
      have hbuf : s.buf ≠ [] := by
        have howes := hinv.owes d
        rw [hd] at howes
        exact howes.1
      exact hok ⟨bytes, rfl, hne, hbuf, d, hd⟩
    obtain ⟨o, ho⟩ := interest_of_readable hinv hs
    have hlog : (h c).written = (h c).received := by
      have howes := hinv.owes c
      cases o with
      | false => rwa [ho] at howes
      | true => exact absurd ho (hnone c)
    refine ⟨by simp, fun d => ?_, fun d d' hd hd' => ?_⟩
    · by_cases hdc : d = c
      · subst hdc
        simp [record, Owes, hne, hlog]
      · simpa [hdc, record] using (hinv.owes d).of_not_out (hnone d)
    · have heq : ∀ e,
          Function.update s.interest c (.registered true) e = .registered true → e = c := by
        intro e he
        by_contra hec
        rw [Function.update_of_ne hec] at he
        exact hnone e he
      rw [heq d hd, heq d' hd']
  | write c rest hs hbuf =>
    have hc := interest_of_writable hinv hs
    have hlog := hinv.owes c
    rw [hc] at hlog
    refine ⟨by simp [write], fun d => ?_, hinv.unique_update c (by simp)⟩
    by_cases hdc : d = c
    · simpa [hdc, write, record, Owes] using hlog.2
    · have hd : s.interest d ≠ .registered true := fun hd => hdc (hinv.unique d c hd hc)
      simpa [hdc, write, record] using (hinv.owes d).of_not_out hd
  | skip e rest hs =>
    refine ⟨fun d hd => ?_, hinv.owes, hinv.unique⟩
    exact hinv.reported d (by rw [hs]; exact List.mem_cons_of_mem e hd)

lemma inv_run {s : State κ} {as : List (Action κ)} {es : List (Event κ)}
    (hmeet : StepsMeet step (fun u a => ¬Clobbers u a) start as)
    (hrun : run step start as = some (s, es)) : Inv s (history es) :=
  run_invariant_meeting step record (fun u a => ¬Clobbers u a) Inv
    (fun _ _ _ _ _ hok hinv hs => inv_move hok hinv (step_move hs)) hmeet inv_start hrun

section continuation

/-- The loop is told that client `c` is readable, and reads. -/
def readEvent (c : κ) (bytes : List UInt8) : List (Action κ) :=
  [.wait [⟨some c, true, false⟩], .read bytes]

/-- The loop is told that client `c` is writable. -/
def writeEvent (c : κ) : List (Action κ) := [.wait [⟨some c, false, true⟩], .next]

lemma run_readEvent {s : State κ} {c : κ} {o : Bool} (hev : s.ev = [])
    (hc : s.interest c = .registered o) {bytes : List UInt8} (hne : bytes ≠ [])
    (hlen : bytes.length ≤ 64) :
    run step s (readEvent c bytes) =
      some (⟨Function.update s.interest c (.registered true), bytes, []⟩,
        [.received c bytes]) := by
  simp [readEvent, run, step, hev, max, reported, hc, hlen, read, hne]

lemma run_writeEvent {s : State κ} {c : κ} (hev : s.ev = [])
    (hc : s.interest c = .registered true) (hbuf : s.buf ≠ []) :
    run step s (writeEvent c) =
      some (⟨Function.update s.interest c (.registered false), [], []⟩, [.written c s.buf]) := by
  simp [writeEvent, run, step, hev, max, reported, hc, hbuf, write]

lemma clean_writeEvent (s : State κ) (c : κ) :
    StepsMeet step (fun u a => ¬Clobbers u a) s (writeEvent c) := by
  have hread : ∀ a ∈ writeEvent c, ∀ bytes, a ≠ .read bytes := by simp [writeEvent]
  refine ⟨?_, fun s' _ _ => ⟨?_, fun _ _ _ => trivial⟩⟩
  · rintro ⟨bytes, hb, -⟩
    exact hread _ (by simp [writeEvent]) bytes hb
  · rintro ⟨bytes, hb, -⟩
    exact hread _ (by simp [writeEvent]) bytes hb

lemma clean_readEvent {s : State κ} (hbuf : s.buf = []) (c : κ) (bytes : List UInt8) :
    StepsMeet step (fun u a => ¬Clobbers u a) s (readEvent c bytes) := by
  refine ⟨by simp [Clobbers], fun s' es hs => ⟨?_, fun _ _ _ => trivial⟩⟩
  have hm := step_move hs
  cases hm with
  | wait ev hr => simp [Clobbers, hbuf]

/-- A list that goes on with another byte behind a common start is no prefix. -/
lemma exists_not_prefix (w p q : List UInt8) (hp : p ≠ []) :
    ∃ x : UInt8, ¬(w ++ (q ++ [x]) <+: w ++ (p ++ (q ++ [x]))) := by
  have hlt : q.length < (p ++ q).length := by
    rw [List.length_append]
    have := List.length_pos_iff.mpr hp
    omega
  have hother : ∃ x : UInt8, x ≠ (p ++ q)[q.length] := by
    by_cases hzero : (p ++ q)[q.length] = 0
    · exact ⟨1, by rw [hzero]; decide⟩
    · exact ⟨0, Ne.symm hzero⟩
  obtain ⟨x, hx⟩ := hother
  refine ⟨x, fun hpre => hx ?_⟩
  rw [List.prefix_append_right_inj, ← List.append_assoc] at hpre
  have hget := hpre.getElem (i := q.length) (by simp)
  rw [List.getElem_append_left hlt] at hget
  simpa using hget

/-- The client that was registered for `EPOLLOUT` when its bytes were overwritten is sent a byte
that is not in its place. -/
lemma not_echoes_of_overwritten {s : State κ} {h : κ → Log} {o : κ} {w p q : List UInt8}
    (hev : s.ev = []) (hbuf : s.buf = []) {b : Bool} (ho : s.interest o = .registered b)
    (hp : p ≠ []) (hwritten : (h o).written = w ++ q) (hreceived : (h o).received = w ++ (p ++ q)) :
    ∃ bs t gs, run step s bs = some (t, gs) ∧ StepsMeet step (fun u a => ¬Clobbers u a) s bs ∧
      ¬Echoes (observe record h gs) := by
  obtain ⟨x, hx⟩ := exists_not_prefix w p q hp
  have hread := run_readEvent hev ho (List.cons_ne_nil x []) (by simp)
  have hwrite := run_writeEvent (s := ⟨Function.update s.interest o (.registered true), [x], []⟩)
    (c := o) rfl (by simp) (by simp)
  refine ⟨readEvent o [x] ++ writeEvent o, _, _,
    (run_append_iff _ _ _ _ _ _).mpr ⟨_, _, _, hread, hwrite, rfl⟩,
    stepsMeet_append (clean_readEvent hbuf o [x]) hread (clean_writeEvent _ o), ?_⟩
  intro hechoes
  have hpre := hechoes o
  simp only [List.cons_append, List.nil_append, observe_cons, observe_nil, record,
    Function.update_self, hwritten, hreceived] at hpre
  exact hx (by simpa using hpre)

end continuation

/-- As long as no `read` overwrites bytes that a connected client waits for, every client has been
sent a prefix of what it has sent. After the first such `read` the run can go on without another
one, to a state in which a client has been sent other bytes. -/
theorem echoes_of_no_clobber (as : List (Action κ)) (s : State κ) (es : List (Event κ))
    (hmeet : StepsMeet step (fun u a => ¬Clobbers u a) start as)
    (hrun : run step start as = some (s, es)) :
    Echoes (history es) ∧
    ∀ a s' fs, Clobbers s a → step s a = some (s', fs) →
      ∃ bs t gs, run step s' bs = some (t, gs) ∧
        StepsMeet step (fun u a => ¬Clobbers u a) s' bs ∧ ¬Echoes (history (es ++ fs ++ gs)) := by
  have hinv := inv_run hmeet hrun
  refine ⟨fun c => (hinv.owes c).echoes, ?_⟩
  rintro a s' fs ⟨bytes, rfl, hne, hbuf, o, ho⟩ hs
  obtain ⟨-, howes⟩ : s.buf ≠ [] ∧ (history es o).written ++ s.buf = (history es o).received := by
    have howes := hinv.owes o
    rwa [ho] at howes
  have hm := step_move hs
  cases hm with
  | eof c out rest hev => exact absurd rfl hne
  | read c out rest _ hev _ =>
    -- the bytes just read are written to `c`
    have hwrite := run_writeEvent
      (s := ⟨Function.update s.interest c (.registered true), bytes, []⟩) (c := c) rfl (by simp) hne
    have hlog : ∃ q, (history (es ++ [.received c bytes] ++ [.written c bytes]) o).written =
          (history es o).written ++ q ∧
        (history (es ++ [.received c bytes] ++ [.written c bytes]) o).received =
          (history es o).written ++ (s.buf ++ q) := by
      by_cases hoc : o = c
      · subst hoc
        refine ⟨bytes, ?_⟩
        simp [history_append, record, ← howes]
      · refine ⟨[], ?_⟩
        simp [history_append, record, hoc, howes]
    obtain ⟨q, hwritten, hreceived⟩ := hlog
    have hreg : ∃ b, Function.update (Function.update s.interest c (.registered true)) c
        (.registered false) o = .registered b := by
      by_cases hoc : o = c
      · exact ⟨false, by simp [hoc]⟩
      · exact ⟨true, by simp [hoc, ho]⟩
    obtain ⟨b, hb⟩ := hreg
    obtain ⟨bs, t, gs, hbs, hclean, hnot⟩ := not_echoes_of_overwritten
      (s := ⟨Function.update (Function.update s.interest c (.registered true)) c
        (.registered false), [], []⟩) rfl rfl hb hbuf hwritten hreceived
    refine ⟨writeEvent c ++ bs, t, [.written c bytes] ++ gs,
      (run_append_iff _ _ _ _ _ _).mpr ⟨_, _, _, hwrite, hbs, rfl⟩,
      stepsMeet_append (clean_writeEvent _ c) hwrite hclean, ?_⟩
    rwa [← List.append_assoc, history_append]

/-- One client, whose bytes are read and written. -/
theorem echoes_one_client :
    ∃ (s : State Unit) (es : List (Event Unit)),
      run step start [.wait [⟨none, true, false⟩], .accept (), .wait [⟨some (), true, false⟩],
        .read [1, 2], .wait [⟨some (), false, true⟩], .next] = some (s, es) ∧
      (history es ()).written = [1, 2] ∧ Echoes (history es) := by
  refine ⟨_, _, rfl, rfl, ?_⟩
  refine (echoes_of_no_clobber [.wait [⟨none, true, false⟩], .accept (),
    .wait [⟨some (), true, false⟩], .read [1, 2], .wait [⟨some (), false, true⟩], .next] _ _ ?_
    rfl).1
  refine stepsMeet_cons rfl (by simp [Clobbers]) (stepsMeet_cons rfl (by simp [Clobbers])
    (stepsMeet_cons rfl (by simp [Clobbers]) (stepsMeet_cons rfl ?_ (stepsMeet_cons rfl
      (by simp [Clobbers]) (stepsMeet_cons rfl (by simp [Clobbers]) trivial)))))
  rintro ⟨bytes, -, -, hbuf, -⟩
  exact hbuf rfl

/-- The bytes of the second client overwrite those of the first one, which is then sent them. -/
theorem client_gets_bytes_of_another :
    ∃ (s : State Bool) (es : List (Event Bool)),
      run step start [.wait [⟨none, true, false⟩], .accept false, .wait [⟨none, true, false⟩],
        .accept true, .wait [⟨some false, true, false⟩], .read [1],
        .wait [⟨some true, true, false⟩], .read [2], .wait [⟨some false, false, true⟩], .next] =
        some (s, es) ∧
      (history es false).received = [1] ∧ (history es false).written = [2] ∧
      ¬Echoes (history es) := by
  refine ⟨_, _, rfl, rfl, rfl, fun hechoes => ?_⟩
  have hpre : [2] <+: [(1 : UInt8)] := hechoes false
  revert hpre
  decide

end CodeC.EpollEcho
