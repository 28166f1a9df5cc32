import CodeC.Httpd
import Mathlib.Algebra.BigOperators.Group.List.Basic

/-!
# What a connection has sent

The bytes sent are copies of the response and the part of one that `write_cur` counts, whatever
`write` returns. But a short write closes the connection instead of waiting for the next
`AE_WRITABLE`.
-/

namespace CodeC.Httpd
open Library

/-- What a step does to the connection. -/
inductive Move (s : State) : Action → State → List Event → Prop
  | close (a : Action) (hmask : s.conn.mask = .readable)
      (ha : a = .readError ∨ a = .readable 0 ∧ (s.input = [] ∨ s.conn.cur = bufSize)) :
      Move s a { s with conn := { s.conn with mask := .closed } } []
  | answer (n : ℕ) (hmask : s.conn.mask = .readable) (hn : 0 < n) (hlen : n ≤ s.input.length)
      (hspace : n ≤ bufSize - s.conn.cur)
      (hreceived : received (s.conn.buf ++ s.input.take n) = true) :
      Move s (.readable n) ⟨⟨[], 0, .writable⟩, s.input.drop n⟩ []
  | collect (n : ℕ) (hmask : s.conn.mask = .readable) (hn : 0 < n) (hlen : n ≤ s.input.length)
      (hspace : n ≤ bufSize - s.conn.cur)
      (hreceived : received (s.conn.buf ++ s.input.take n) = false) :
      Move s (.readable n)
        ⟨{ s.conn with buf := s.conn.buf ++ s.input.take n }, s.input.drop n⟩ []
  | retry (hmask : s.conn.mask = .writable) : Move s (.writeable none) s [.sent []]
  | finish (n : ℕ) (hmask : s.conn.mask = .writable) (hn : n ≤ s.conn.offered.length)
      (hall : s.conn.writeCur + n = response.length) :
      Move s (.writeable (some n))
        { s with conn := { s.conn with writeCur := response.length, mask := .readable } }
        [.sent (s.conn.offered.take n)]
  | short (n : ℕ) (hmask : s.conn.mask = .writable) (hn : n ≤ s.conn.offered.length)
      (hpart : s.conn.writeCur + n ≠ response.length) :
      Move s (.writeable (some n))
        { s with conn := { s.conn with writeCur := s.conn.writeCur + n, mask := .closed } }
        [.sent (s.conn.offered.take n)]

lemma step_move {s s' : State} {a : Action} {es : List Event} (h : step s a = some (s', es)) :
    Move s a s' es := by
  cases a with
  | readable n =>
    simp only [step, Option.ite_none_right_eq_some, Option.some.injEq, Prod.mk.injEq] at h
    obtain ⟨⟨hmask, hspace, hlen, hzero⟩, rfl, rfl⟩ := h
    rcases Nat.eq_zero_or_pos n with rfl | hn
    · simpa [socketReadable] using Move.close (.readable 0) hmask (.inr ⟨rfl, hzero rfl⟩)
    · have hpos : (0 : ℤ) < n := Int.natCast_pos.mpr hn
      rw [socketReadable, if_pos hpos]
      by_cases hreceived : received (s.conn.buf ++ s.input.take n) = true
      · simpa [hreceived] using Move.answer n hmask hn hlen hspace hreceived
      · simpa [hreceived] using
          Move.collect n hmask hn hlen hspace (Bool.eq_false_iff.mpr hreceived)
  | readError =>
    simp only [step, Option.ite_none_right_eq_some, Option.some.injEq, Prod.mk.injEq] at h
    obtain ⟨hmask, rfl, rfl⟩ := h
    exact Move.close .readError hmask (.inl rfl)
  | writeable n =>
    simp only [step, Option.ite_none_right_eq_some, Option.some.injEq, Prod.mk.injEq] at h
    obtain ⟨⟨hmask, hn⟩, rfl, rfl⟩ := h
    cases n with
    | none => exact Move.retry hmask
    | some n =>
      by_cases hall : s.conn.writeCur + n = response.length
      · simpa [socketWriteable, hall] using Move.finish n hmask hn hall
      · simpa [socketWriteable, hall] using Move.short n hmask hn hall

/-- Full copies of the response, then the bytes that `write_cur` counts. Between two responses
`write_cur` still counts all of the last one, or nothing has been sent. -/
structure Counted (s : State) (bytes : List UInt8) : Prop where
  sent : ∃ k, bytes = (List.replicate k response).flatten ++ response.take s.conn.writeCur
  between : s.conn.mask = .readable → s.conn.writeCur = 0 ∨ s.conn.writeCur = response.length

lemma counted_start (input : List UInt8) : Counted (start input) [] :=
  ⟨⟨0, by simp [start]⟩, fun _ => .inl rfl⟩

/-- The bytes taken from what is offered continue the response at `write_cur`. -/
lemma sent_more {k : ℕ} {bytes : List UInt8} {conn : Connection}
    (h : bytes = (List.replicate k response).flatten ++ response.take conn.writeCur) (n : ℕ) :
    bytes ++ conn.offered.take n =
      (List.replicate k response).flatten ++ response.take (conn.writeCur + n) := by
  rw [h, List.append_assoc, Connection.offered, List.take_add]

lemma counted_step {s s' : State} {bytes : List UInt8} {a : Action} {es : List Event}
    (hinv : Counted s bytes) (h : step s a = some (s', es)) :
    Counted s' (observe record bytes es) := by
  obtain ⟨k, hk⟩ := hinv.sent
  cases step_move h with
  | close _ hmask ha => exact ⟨⟨k, hk⟩, by simp⟩
  | answer n hmask hn hlen hspace hreceived =>
    refine ⟨?_, by simp⟩
    -- the response that `write_cur` counted in full becomes one of the copies
    rcases hinv.between hmask with hcur | hcur
    · exact ⟨k, by simpa [hcur] using hk⟩
    · exact ⟨k + 1, by simpa [hcur, List.replicate_succ'] using hk⟩
  | collect n hmask hn hlen hspace hreceived => exact ⟨⟨k, hk⟩, fun _ => hinv.between hmask⟩
  | retry hmask => exact ⟨⟨k, by simpa [record] using hk⟩, by simp [hmask]⟩
  | finish n hmask hn hall =>
    refine ⟨⟨k, ?_⟩, fun _ => .inr rfl⟩
    have hmore := sent_more hk n
    rw [hall] at hmore
    simpa [record] using hmore
  | short n hmask hn hpart => exact ⟨⟨k, by simpa [record] using sent_more hk n⟩, by simp⟩

/-- A call of `socket_writeable` whose write does not fail leaves the connection open as long as
the response is not sent in full. -/
def Resumes (s : State) (a : Action) : Prop :=
  ∀ n s' es, a = .writeable (some n) → step s a = some (s', es) →
    s'.conn.writeCur < response.length → s'.conn.mask ≠ .closed

/-- A write that does not fail takes all the bytes offered. -/
def WritesAll (s : State) (a : Action) : Prop :=
  ∀ n, a = .writeable (some n) → s.conn.mask = .writable → s.conn.offered.length ≤ n

lemma resumes_iff_writesAll (s : State) (a : Action) : Resumes s a ↔ WritesAll s a := by
  constructor
  · rintro hresumes n rfl hmask
    by_contra hshort
    rw [Connection.offered, List.length_drop] at hshort
    have hpart : s.conn.writeCur + n ≠ response.length := by omega
    refine hresumes n
      { s with conn := { s.conn with writeCur := s.conn.writeCur + n, mask := .closed } }
      [.sent (s.conn.offered.take n)] rfl ?_ (by simp only; omega) rfl
    simp only [step, hmask, Connection.offered, List.length_drop, socketWriteable, hpart,
      Option.getD_some, true_and, if_false]
    exact if_pos (by omega)
  · rintro hall n s' es rfl hs hcur
    cases step_move hs with
    | close _ hmask ha => simp at ha
    | finish _ hmask hn' hall' => simp
    | short _ hmask hn' hpart =>
      have hn := hall n rfl hmask
      rw [Connection.offered, List.length_drop] at hn
      simp only at hcur
      omega

/-- At every moment the bytes sent are copies of the response and its first `write_cur` bytes.
The connection stays open while a response is sent in part, exactly in the runs in which every
write takes all it is offered or fails. -/
theorem resumes_iff_no_short_write (input : List UInt8) (as : List Action) :
    (∀ s es, run step (start input) as = some (s, es) →
      ∃ k, observe record [] es =
        (List.replicate k response).flatten ++ response.take s.conn.writeCur) ∧
    (EachStep step (fun s _ a => Resumes s a) (start input) as ↔
      EachStep step (fun s _ a => WritesAll s a) (start input) as) := by
  constructor
  · intro s es hrun
    have hinv := run_invariant step record Counted (fun _ _ _ _ _ => counted_step)
      (counted_start input) hrun
    exact hinv.sent
  · exact eachStep_iff fun _ a _ t _ _ _ => resumes_iff_writesAll t a

/-- A write of `n` bytes at the start of the response. -/
lemma step_write {n : ℕ} (hn : n < 133) (input : List UInt8) :
    step ⟨⟨[], 0, .writable⟩, input⟩ (.writeable (some n)) =
      some (⟨⟨[], n, .closed⟩, input⟩, [.sent (response.take n)]) := by
  simp [step, Connection.offered, socketWriteable, length_response, Nat.ne_of_lt hn,
    Nat.le_of_lt hn]

/-- A request is read, and of the 133 bytes of the response `write` takes 100: the connection is
closed with the response cut off. -/
theorem short_write_closes :
    (run step (start [13, 10, 13, 10]) [.readable 4, .writeable (some 100)]).map
        (fun p => (p.1.conn.mask, p.1.conn.writeCur, observe record [] p.2)) =
      some (.closed, 100, response.take 100) ∧
    ¬EachStep step (fun s _ a => Resumes s a) (start [13, 10, 13, 10])
      [.readable 4, .writeable (some 100)] := by
  have hread : step (start [13, 10, 13, 10]) (.readable 4) =
      some (⟨⟨[], 0, .writable⟩, []⟩, []) := by decide
  have hwrite := step_write (show 100 < 133 by decide) []
  constructor
  · simp [run, hread, hwrite, record]
  · intro h
    have hstep := h [.readable 4] (.writeable (some 100)) [] _ _ rfl (by rw [run, hread]; rfl)
    exact hstep 100 _ _ rfl hwrite (by simp [length_response]) rfl

end CodeC.Httpd
