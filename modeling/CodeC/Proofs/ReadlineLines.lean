import CodeC.Readline
import CodeC.Library.Vector
import Mathlib.Data.List.Infix

/-!
# What `readline` loses

A call that fills the buffer overwrites the last byte it has read. No other exit of the loop drops
a byte, so the lines make up the stream exactly when no 1024 bytes in a row are without a newline.
-/

namespace CodeC.Readline
open Library

/-- What a call that has already read `p` can do: the stream before, the result and the stream
after. -/
inductive Reads (p : List UInt8) : List UInt8 → Option (List UInt8) → List UInt8 → Prop
  | line {w rest : List UInt8} (hw : 10 ∉ w) (hlen : (p ++ w).length < bufSize) :
      Reads p (w ++ 10 :: rest) (some (p ++ w)) rest
  | last {w : List UInt8} (hw : 10 ∉ w) (hlen : (p ++ w).length < bufSize) (hne : p ++ w ≠ []) :
      Reads p w (some (p ++ w)) []
  | eof (hp : p = []) : Reads p [] none []
  | full {w rest : List UInt8} (hw : 10 ∉ w) (hlen : (p ++ w).length = bufSize) :
      Reads p (w ++ rest) (some ((p ++ w).take (bufSize - 1))) rest

/-- One more byte that is not a newline -/
lemma Reads.cons {p stream rest : List UInt8} {r : Option (List UInt8)} {b : UInt8} (hb : b ≠ 10)
    (h : Reads (p ++ [b]) stream r rest) : Reads p (b :: stream) r rest := by
  have hmem : ∀ w : List UInt8, 10 ∉ w → 10 ∉ b :: w := by
    intro w hw hbw
    rcases List.mem_cons.mp hbw with h10 | h10
    · exact hb h10.symm
    · exact hw h10
  have happend : ∀ w : List UInt8, p ++ [b] ++ w = p ++ b :: w := by simp
  cases h with
  | line hw hlen =>
    rw [happend] at hlen ⊢
    exact .line (hmem _ hw) hlen
  | last hw hlen hne =>
    rw [happend] at hlen hne ⊢
    exact .last (hmem _ hw) hlen hne
  | eof hp => simp at hp
  | full hw hlen =>
    rw [happend] at hlen ⊢
    exact .full (hmem _ hw) hlen

lemma cString_set {buf : List UInt8} {i : ℕ} (hi : i < buf.length) (hnul : 0 ∉ buf.take i) :
    cString (buf.set i 0) = buf.take i := by
  have hsplit : buf.set i 0 = buf.take i ++ 0 :: buf.drop (i + 1) := by
    rw [List.set_eq_take_append_cons_drop, if_pos hi]
  have hne : ∀ b ∈ buf.take i, decide (b ≠ 0) = true := by
    intro b hb
    have hb0 : b ≠ 0 := fun h => hnul (h ▸ hb)
    simpa using hb0
  rw [cString, hsplit, List.takeWhile_append_of_pos hne]
  simp

lemma terminate_eq {s : State} {i : ℕ} (hi : i < s.buf.length) (hnul : 0 ∉ s.buf.take i) :
    terminate s i = (some (s.buf.take i), ⟨s.stream, s.buf.set i 0⟩) := by
  rw [terminate, cString_set hi hnul]

/-- The loop ends with a full buffer. -/
lemma reads_full {s : State} (hbuf : s.buf.length = bufSize) (hnul : 0 ∉ s.buf.take bufSize) :
    Reads (s.buf.take bufSize) s.stream (terminate s (bufSize - 1)).1 s.stream := by
  have htake : (s.buf.take bufSize).take (bufSize - 1) = s.buf.take (bufSize - 1) := by
    rw [List.take_take, Nat.min_eq_left (Nat.sub_le _ _)]
  have hnul' : 0 ∉ s.buf.take (bufSize - 1) := by
    rw [← htake]
    exact fun h => hnul (List.mem_of_mem_take h)
  have hlen : (s.buf.take bufSize ++ []).length = bufSize := by
    simp [hbuf]
  have hfull : Reads _ ([] ++ s.stream) _ s.stream := .full List.not_mem_nil hlen
  rw [List.append_nil, htake] at hfull
  rwa [terminate_eq (by rw [hbuf]; decide) hnul']

/-- The stream ends behind some bytes. -/
lemma reads_last {p : List UInt8} (hne : p ≠ []) (hlen : p.length < bufSize) :
    Reads p [] (some p) [] := by
  have hlast : _ → _ → Reads p [] _ [] := .last List.not_mem_nil
  rw [List.append_nil] at hlast
  exact hlast hlen hne

/-- The next byte is a newline. -/
lemma reads_line {p : List UInt8} (rest : List UInt8) (hlen : p.length < bufSize) :
    Reads p (10 :: rest) (some p) rest := by
  have hline : _ → Reads p ([] ++ 10 :: rest) _ rest := .line List.not_mem_nil
  rw [List.append_nil] at hline
  exact hline hlen

lemma scan_spec (n i : ℕ) (s : State) (hn : i + n = bufSize) (hbuf : s.buf.length = bufSize)
    (hnul : 0 ∉ s.buf.take i) (hstream : 0 ∉ s.stream) :
    Reads (s.buf.take i) s.stream (scan n i s).1 (scan n i s).2.stream ∧
      (scan n i s).2.buf.length = bufSize := by
  induction n generalizing i s with
  | zero =>
    obtain rfl : i = bufSize := hn
    exact ⟨reads_full hbuf hnul, by simpa [scan, terminate] using hbuf⟩
  | succ n ih =>
    have hi : i < s.buf.length := by omega
    have hlen : (s.buf.take i).length = i := by
      rw [List.length_take]
      omega
    cases hs : s.stream with
    | nil =>
      have hread : read s i = (0, s) := by rw [read, hs]
      simp only [scan, hread]
      by_cases h0 : i = 0
      · rw [if_pos ⟨Nat.le_refl 0, h0⟩, hs]
        exact ⟨.eof (by simp [h0]), hbuf⟩
      · rw [if_neg fun h => h0 h.2, if_pos (.inl ⟨Nat.le_refl 0, h0⟩), terminate_eq hi hnul, hs]
        refine ⟨reads_last (fun hnil => ?_) (by omega), by rwa [List.length_set]⟩
        rw [hnil] at hlen
        exact h0 hlen.symm
    | cons b rest =>
      rw [hs] at hstream
      have hread : read s i = (1, ⟨rest, s.buf.set i b⟩) := by rw [read, hs]
      have hget : (s.buf.set i b).getD i 0 = b := by
        rw [getD_set, if_pos ⟨rfl, hi⟩]
      have hset : (s.buf.set i b).length = bufSize := by rwa [List.length_set]
      simp only [scan, hread, hget]
      rw [if_neg (by simp)]
      by_cases hb : b = 10
      · have htake : (s.buf.set i b).take i = s.buf.take i := List.take_set_of_le (Nat.le_refl i)
        have hi' : i < (s.buf.set i b).length := by omega
        rw [if_pos (.inr hb), terminate_eq hi' (by rwa [htake]), htake, hb]
        exact ⟨reads_line rest (by omega), by rwa [List.length_set, ← hb]⟩
      · rw [if_neg (by simpa using hb)]
        have htake := take_succ_set hi b
        have hb0 : b ≠ 0 := fun h => hstream (by simp [h])
        have hih := ih (i + 1) ⟨rest, s.buf.set i b⟩ (by omega) hset ?_ ?_
        · rw [htake] at hih
          exact ⟨hih.1.cons hb, hih.2⟩
        · rw [htake]
          intro h
          rcases List.mem_append.mp h with h | h
          · exact hnul h
          · exact hb0 (List.mem_singleton.mp h).symm
        · exact fun h => hstream (List.mem_cons_of_mem b h)

/-- What a call can do to a stream without NUL bytes -/
lemma readline_spec {s : State} (hbuf : s.buf.length = bufSize) (hstream : 0 ∉ s.stream) :
    Reads [] s.stream (readline s).1 (readline s).2.stream ∧
      (readline s).2.buf.length = bufSize := by
  have h := scan_spec bufSize 0 s (Nat.zero_add _) hbuf (by simp) hstream
  rwa [List.take_zero] at h

/-- Among any 1024 bytes in a row there is a newline. -/
def Short (stream : List UInt8) : Prop := ∀ w, w <:+: stream → w.length = bufSize → 10 ∈ w

/-- The strings hold no newline and nothing that is not in the stream, and all of it exactly when
the lines are short. -/
structure Produced (stream : List UInt8) (strs : List (List UInt8)) : Prop where
  no_newline : ∀ str ∈ strs, 10 ∉ str
  sublist : List.Sublist strs.flatten (stream.filter (· ≠ 10))
  all_iff : strs.flatten = stream.filter (· ≠ 10) ↔ Short stream

lemma filter_of_no_newline {w : List UInt8} (hw : 10 ∉ w) : w.filter (· ≠ 10) = w := by
  rw [List.filter_eq_self]
  intro b hb
  have hb10 : b ≠ 10 := fun h => hw (h ▸ hb)
  simpa using hb10

lemma prefix_length_le {v w rest : List UInt8} (hv : 10 ∉ v) (h : v <+: w ++ 10 :: rest) :
    v.length ≤ w.length := by
  by_contra hlong
  have hw : w ++ [10] <+: w ++ 10 :: rest := ⟨rest, by simp⟩
  have hwv := List.prefix_of_prefix_length_le hw h (by simp; omega)
  exact hv (hwv.mem (by simp))

/-- A stretch without newline lies on one side of a newline. -/
lemma infix_of_newline {v w rest : List UInt8} (hv : 10 ∉ v) (h : v <:+: w ++ 10 :: rest) :
    v.length ≤ w.length ∨ v <:+: rest := by
  induction w with
  | nil =>
    rcases List.infix_cons_iff.mp h with h | h
    · exact .inl (prefix_length_le (w := []) hv h)
    · exact .inr h
  | cons c w ih =>
    rcases List.infix_cons_iff.mp h with h | h
    · exact .inl (prefix_length_le (w := c :: w) hv h)
    · rcases ih h with hlen | hrest
      · exact .inl (Nat.le_succ_of_le hlen)
      · exact .inr hrest

lemma short_line_iff {w rest : List UInt8} (hlen : w.length < bufSize) :
    Short (w ++ 10 :: rest) ↔ Short rest := by
  constructor
  · intro h v hv
    exact h v (hv.trans (List.suffix_append_of_suffix (List.suffix_cons 10 rest)).isInfix)
  · intro h v hv hvlen
    by_contra hno
    rcases infix_of_newline hno hv with hle | hrest
    · omega
    · exact hno (h v hrest hvlen)

section produced

variable {w rest : List UInt8} {strs : List (List UInt8)}

/-- A line that ends in a newline -/
lemma Produced.line (hw : 10 ∉ w) (hlen : w.length < bufSize) (hrest : Produced rest strs) :
    Produced (w ++ 10 :: rest) (w :: strs) := by
  have hfilter : (w ++ 10 :: rest).filter (· ≠ 10) = w ++ rest.filter (· ≠ 10) := by
    rw [List.filter_append, filter_of_no_newline hw]
    simp
  refine ⟨by simpa using ⟨hw, hrest.no_newline⟩, ?_, ?_⟩
  · rw [List.flatten_cons, hfilter]
    exact (List.Sublist.refl w).append hrest.sublist
  · rw [List.flatten_cons, hfilter, short_line_iff hlen, ← hrest.all_iff, List.append_cancel_left_eq]

/-- The last line, without a newline -/
lemma Produced.last (hw : 10 ∉ w) (hlen : w.length < bufSize) (hrest : Produced [] strs) :
    Produced w (w :: strs) := by
  have hnil : strs.flatten = [] := List.sublist_nil.mp hrest.sublist
  have hflat : (w :: strs).flatten = w.filter (· ≠ 10) := by
    rw [List.flatten_cons, hnil, filter_of_no_newline hw, List.append_nil]
  refine ⟨by simpa using ⟨hw, hrest.no_newline⟩, by rw [hflat], iff_of_true hflat ?_⟩
  intro v hv hvlen
  have := hv.length_le
  omega

/-- A full buffer: a byte is lost and a stretch of 1024 bytes has no newline. -/
lemma Produced.full (hw : 10 ∉ w) (hlen : w.length = bufSize) (hrest : Produced rest strs) :
    Produced (w ++ rest) (w.take (bufSize - 1) :: strs) := by
  have hfilter : (w ++ rest).filter (· ≠ 10) = w ++ rest.filter (· ≠ 10) := by
    rw [List.filter_append, filter_of_no_newline hw]
  have hnot : ¬Short (w ++ rest) := by
    intro hshort
    exact hw (hshort w (List.prefix_append w rest).isInfix hlen)
  have hlt : (w.take (bufSize - 1) ++ strs.flatten).length <
      (w ++ rest.filter (· ≠ 10)).length := by
    have hle := hrest.sublist.length_le
    rw [List.length_append, List.length_append, List.length_take, hlen]
    unfold bufSize
    omega
  refine ⟨?_, ?_, ?_⟩
  · intro str hstr
    rcases List.mem_cons.mp hstr with rfl | hstr
    · exact fun h => hw (List.mem_of_mem_take h)
    · exact hrest.no_newline str hstr
  · rw [List.flatten_cons, hfilter]
    exact (List.take_sublist _ _).append hrest.sublist
  · rw [List.flatten_cons, hfilter]
    exact iff_of_false (fun heq => Nat.ne_of_lt hlt (congrArg List.length heq)) hnot

/-- A call adds its string to those of the later calls. -/
lemma Produced.cons {stream str : List UInt8} (h : Reads [] stream (some str) rest)
    (hrest : Produced rest strs) : Produced stream (str :: strs) := by
  cases h with
  | line hw hlen => exact hrest.line hw hlen
  | last hw hlen => exact hrest.last hw hlen
  | full hw hlen => exact hrest.full hw hlen

end produced

lemma produced_nil : Produced [] [] := by
  refine ⟨by simp, by simp, ?_⟩
  refine iff_of_true rfl fun v hv hvlen => ?_
  rw [List.infix_nil.mp hv] at hvlen
  cases hvlen

lemma Reads.suffix {stream rest : List UInt8} {r : Option (List UInt8)}
    (h : Reads [] stream r rest) : rest <:+ stream := by
  cases h with
  | line => exact List.suffix_append_of_suffix (List.suffix_cons _ _)
  | last => exact List.nil_suffix
  | eof => exact List.nil_suffix
  | full => exact List.suffix_append _ _

lemma Reads.eq_nil {stream rest : List UInt8} (h : Reads [] stream none rest) : stream = [] := by
  cases h
  rfl

/-- A call that returns true takes at least one byte. -/
lemma Reads.length_lt {stream rest str : List UInt8} (h : Reads [] stream (some str) rest) :
    rest.length < stream.length := by
  cases h with
  | line =>
    rw [List.length_append, List.length_cons]
    omega
  | last hw hlen hne => exact List.length_pos_of_ne_nil hne
  | full hw hlen =>
    rw [List.nil_append] at hlen
    rw [List.length_append, hlen]
    unfold bufSize
    omega

/-- The loop of `main` from any content of the buffer -/
lemma lines_spec (stream buf : List UInt8) (hnul : 0 ∉ stream) (hbuf : buf.length = bufSize) :
    ∃ strs, Produced stream strs ∧
      ∀ fuel, stream.length < fuel → lines fuel ⟨stream, buf⟩ = some strs := by
  -- the strings of the later calls complete those that are there
  refine loop_total (I := fun m r => r.1.stream.length = m ∧ r.1.buf.length = bufSize ∧
    0 ∉ r.1.stream ∧ ∀ strs, Produced r.1.stream strs → Produced stream (r.2 ++ strs)) ?_ ?_ ?_
  · rintro m r r' ⟨rfl, hbuf, hnul, hacc⟩ hbody
    obtain ⟨hreads, hbuf'⟩ := readline_spec hbuf hnul
    rw [body] at hbody
    split at hbody
    · rename_i str hstr
      obtain rfl := Round.again.inj hbody
      rw [hstr] at hreads
      refine ⟨_, hreads.length_lt, rfl, hbuf', fun h => hnul (hreads.suffix.mem h), ?_⟩
      intro strs hstrs
      have hcons := hacc (str :: strs) (hstrs.cons hreads)
      rwa [List.append_cons] at hcons
    · cases hbody
  · rintro m r strs ⟨rfl, hbuf, hnul, hacc⟩ hbody
    obtain ⟨hreads, -⟩ := readline_spec hbuf hnul
    rw [body] at hbody
    split at hbody
    · cases hbody
    · rename_i hnone
      obtain rfl := Round.leave.inj hbody
      rw [hnone] at hreads
      rw [hreads.eq_nil] at hacc
      simpa using hacc [] produced_nil
  · exact ⟨rfl, hbuf, hnul, fun strs h => h⟩

/-- The calls end. No string holds a newline, and together they are the stream without its newlines
exactly when among any 1024 bytes in a row there is a newline. -/
theorem lines_flatten_iff_short (stream buf : List UInt8) (hnul : 0 ∉ stream)
    (hbuf : buf.length = bufSize) :
    ∃ strs, (∀ fuel, stream.length < fuel → lines fuel ⟨stream, buf⟩ = some strs) ∧
      (∀ str ∈ strs, 10 ∉ str) ∧
      (strs.flatten = stream.filter (· ≠ 10) ↔
        ∀ w, w <:+: stream → w.length = bufSize → 10 ∈ w) := by
  obtain ⟨strs, hstrs, hlines⟩ := lines_spec stream buf hnul hbuf
  exact ⟨strs, hlines, hstrs.no_newline, hstrs.all_iff⟩

theorem lines_flatten_iff_short_two_lines :
    ∃ strs, lines 6 ⟨[97, 98, 10, 10, 99], List.replicate 1024 0⟩ = some strs ∧
      strs.flatten = [97, 98, 99] := by
  obtain ⟨strs, hlines, -, hiff⟩ := lines_flatten_iff_short [97, 98, 10, 10, 99]
    (List.replicate 1024 0) (by decide) List.length_replicate
  refine ⟨strs, hlines 6 (by decide), hiff.mpr ?_⟩
  intro w hw hlen
  have hle := hw.length_le
  rw [hlen] at hle
  exact absurd hle (by decide)

/-- The last of 1024 bytes without a newline is lost. -/
theorem full_buffer_loses_byte :
    ∃ strs, lines 1025 ⟨List.replicate 1024 97, List.replicate 1024 0⟩ = some strs ∧
      strs.flatten ≠ (List.replicate 1024 97).filter (· ≠ 10) := by
  have hne : ∀ b : UInt8, b ≠ 97 → b ∉ List.replicate 1024 97 :=
    fun b hb h => hb (List.eq_of_mem_replicate h)
  obtain ⟨strs, hstrs, hlines⟩ := lines_spec (List.replicate 1024 97) (List.replicate 1024 0)
    (hne 0 (by decide)) List.length_replicate
  refine ⟨strs, hlines 1025 (by rw [List.length_replicate]; decide), fun heq => ?_⟩
  apply hne 10 (by decide)
  exact hstrs.all_iff.mp heq _ (List.infix_refl _) List.length_replicate

end CodeC.Readline
