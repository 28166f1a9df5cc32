import CodeC.Library.Delimited
import CodeC.Proofs.HttpdWrites

/-!
# Requests and responses of a connection

`socket_readable` looks for the end of a request only at the end of what it has buffered. A read
that goes on into the next request therefore hides the end of the first one, unless it stops two
bytes later and the next request begins with CR LF. The number of responses is settled by where
the reads end.
-/

namespace CodeC.Httpd
open Library

def crlf : List UInt8 := [13, 10]

def crlfcrlf : List UInt8 := [13, 10, 13, 10]

/-- A request ends at its first CR LF CR LF. -/
structure Request (r : List UInt8) : Prop where
  ends : crlfcrlf <:+ r
  first : ∀ t, t <+: r → crlfcrlf <:+ t → t = r

section received

variable {r v w y z : List UInt8}

lemma received_iff (buf : List UInt8) : received buf = true ↔ crlfcrlf <:+ buf := by
  constructor
  · intro h
    have hlen : 4 ≤ buf.length := by
      simp only [received, Bool.and_eq_true, decide_eq_true_eq] at h
      exact h.1.1.1.1
    obtain ⟨a, b, c, d, hlast⟩ : ∃ a b c d, buf.drop (buf.length - 4) = [a, b, c, d] :=
      List.length_eq_four.mp (by rw [List.length_drop]; omega)
    rw [← List.take_append_drop (buf.length - 4) buf, hlast] at h ⊢
    simp only [received, List.length_append, List.length_cons, List.length_nil] at h
    obtain ⟨⟨⟨rfl, rfl⟩, rfl⟩, rfl⟩ : ((d = 10 ∧ c = 13) ∧ b = 10) ∧ a = 13 := by simpa using h
    exact List.suffix_append _ _
  · rintro ⟨p, rfl⟩
    simp [received, crlfcrlf]

lemma received_append (p q : List UInt8) (h : received q = true) : received (p ++ q) = true := by
  rw [received_iff] at h ⊢
  exact h.trans (List.suffix_append p q)

lemma four_le_of_received (h : received w = true) : 4 ≤ w.length := by
  simpa [crlfcrlf] using ((received_iff w).mp h).length_le

/-- Behind a part of the stream that ends in LF, the next complete buffer lies two bytes further
or has its CR LF CR LF behind that part. -/
lemma received_beyond (hv : [10] <:+ v) (hlen : v.length < w.length) (hpre : w <+: v ++ y)
    (hw : received w = true) :
    w = v ++ crlf ∧ crlf <+: y ∨ ∃ w', w = v ++ w' ∧ received w' = true := by
  obtain ⟨v, rfl⟩ := hv
  obtain ⟨u, rfl⟩ : v ++ [10] <+: w :=
    List.prefix_of_prefix_length_le (List.prefix_append _ _) hpre (Nat.le_of_lt hlen)
  have hy : u <+: y := (List.prefix_append_right_inj _).mp hpre
  have hsuffix := (received_iff _).mp hw
  obtain ⟨p, hp⟩ := hsuffix
  -- CR and LF differ, so CR LF CR LF cannot have its first or its third byte at the LF of `v`
  match u, hy with
  | [], _ => simp at hlen
  | [a], _ =>
    have hlast : p ++ [13, 10] ++ [13, 10] = v ++ [10, a] := by simpa [crlfcrlf] using hp
    have htwo := (List.append_inj' hlast rfl).2
    simp at htwo
  | [a, b], hy =>
    have hlast : p ++ [13, 10] ++ [13, 10] = v ++ [10] ++ [a, b] := by simpa [crlfcrlf] using hp
    have htwo : crlf = [a, b] := (List.append_inj' hlast rfl).2
    rw [← htwo] at hy ⊢
    exact .inl ⟨rfl, hy⟩
  | [a, b, c], _ =>
    have hlast : p ++ [13, 10, 13, 10] = v ++ [10, a, b, c] := by simpa [crlfcrlf] using hp
    have hfour := (List.append_inj' hlast rfl).2
    simp at hfour
  | a :: b :: c :: d :: u, _ =>
    refine .inr ⟨_, rfl, (received_iff _).mpr ?_⟩
    exact List.suffix_of_suffix_length_le ⟨p, hp⟩ (List.suffix_append _ _) (by simp [crlfcrlf])

/-- What is still to be read of a request: all of it, or all but a CR LF at its front. -/
structure Unread (r : List UInt8) : Prop where
  ends : crlf <:+ r
  first : ∀ t, t <+: r → received t = true → t = r

lemma Unread.ends_lf (h : Unread r) : [10] <:+ r :=
  List.IsSuffix.trans ⟨[13], rfl⟩ h.ends

lemma Unread.received_append_crlf (h : Unread r) : received (r ++ crlf) = true := by
  rw [received_iff]
  obtain ⟨p, rfl⟩ := h.ends
  exact ⟨p, by simp [crlf, crlfcrlf]⟩

lemma Request.unread (h : Request r) : Unread r where
  ends := List.IsSuffix.trans ⟨[13, 10], rfl⟩ h.ends
  first t ht hreceived := h.first t ht ((received_iff t).mp hreceived)

lemma Request.received (h : Request r) : received r = true := (received_iff r).mpr h.ends

lemma Request.unread_of_crlf (h : Request (crlf ++ r)) : Unread r where
  ends := by
    have hlen := h.ends.length_le
    simp only [crlfcrlf, crlf, List.length_append, List.length_cons, List.length_nil] at hlen
    refine List.suffix_of_suffix_length_le (List.IsSuffix.trans ⟨[13, 10], rfl⟩ h.ends)
      (List.suffix_append _ _) ?_
    simp only [crlf, List.length_cons, List.length_nil]
    omega
  first t ht hreceived := by
    have hwhole := h.first (crlf ++ t) ((List.prefix_append_right_inj _).mpr ht)
      ((received_iff _).mp (received_append crlf t hreceived))
    exact List.append_cancel_left hwhole

/-- Without its first CR LF a request is still seen to end, unless nothing but CR LF is left. -/
lemma Request.received_of_crlf (h : Request (crlf ++ r)) :
    Httpd.received r = true ↔ crlf ++ r ≠ crlfcrlf := by
  constructor
  · intro hreceived heq
    have hlen := four_le_of_received hreceived
    rw [List.append_cancel_left (heq : crlf ++ r = crlf ++ crlf)] at hlen
    simp at hlen
  · intro hne
    have hends := h.ends
    match r, hends with
    | [], hends => simp [crlf, crlfcrlf, List.suffix_cons_iff] at hends
    | [a], hends => simp [crlf, crlfcrlf, List.suffix_cons_iff] at hends
    | [a, b], hends =>
      exact absurd (hends.eq_of_length rfl).symm hne
    | [a, b, c], hends =>
      simp [crlf, crlfcrlf, List.suffix_cons_iff] at hends
    | a :: b :: c :: d :: r, hends =>
      rw [received_iff]
      exact List.suffix_of_suffix_length_le hends (List.suffix_append _ _) (by simp [crlfcrlf])

end received

section counting

variable {r y : List UInt8} {rs : List (List UInt8)} {cs ds rest : List (List UInt8)}

/-- The number of complete requests `socket_readable` sees when `read` returns these chunks. -/
abbrev responses (buf : List UInt8) (cs : List (List UInt8)) : ℕ :=
  completions (received · = true) buf cs

lemma responses_cons (buf c : List UInt8) (cs : List (List UInt8)) :
    responses buf (c :: cs) =
      if received (buf ++ c) = true then 1 + responses [] cs else responses (buf ++ c) cs := rfl

/-- A read that ends with the request. -/
lemma responses_hit (hr : Unread r) (hreceived : received r = true) (hne : ∀ c ∈ ds, c ≠ [])
    (hds : ds.flatten = r) : responses [] (ds ++ rest) = 1 + responses [] rest := by
  refine completions_append ?_ (by simpa [hds] using hreceived) fun l hl _ hproper hfirst => ?_
  · rintro rfl
    have hlen := four_le_of_received hreceived
    simp [← hds] at hlen
  · have hlt := flatten_length_lt hl hproper hne
    have hpre : l.flatten <+: r := hds ▸ hl.flatten
    rw [hr.first _ hpre hfirst, hds] at hlt
    exact Nat.lt_irrefl _ hlt

/-- No read that ends with the request is seen, but one that ends two bytes later. -/
lemma responses_late (hr : Unread r) (hne : ∀ c ∈ ds, c ≠ []) (hds : ds.flatten = r ++ crlf)
    (hmiss : ∀ l, l <+: ds → l.flatten = r → received r ≠ true) :
    responses [] (ds ++ rest) = 1 + responses [] rest := by
  refine completions_append ?_ ?_ fun l hl _ hproper hfirst => ?_
  · rintro rfl
    simp [crlf] at hds
  · simpa [hds] using hr.received_append_crlf
  · have hlt := flatten_length_lt hl hproper hne
    have hpre : l.flatten <+: r ++ crlf := hds ▸ hl.flatten
    rw [hds, List.length_append] at hlt
    rcases Nat.lt_or_ge r.length l.flatten.length with hlong | hshort
    · obtain ⟨heq, -⟩ | ⟨w, heq, hw⟩ := received_beyond hr.ends_lf hlong hpre hfirst
      · rw [heq, List.length_append] at hlt
        exact Nat.lt_irrefl _ hlt
      · have hfour := four_le_of_received hw
        rw [heq, List.length_append] at hlt
        simp only [crlf, List.length_cons, List.length_nil] at hlt
        omega
    · have hwithin := List.prefix_of_prefix_length_le hpre (List.prefix_append _ _) hshort
      have hall := hr.first _ hwithin hfirst
      exact hmiss l hl hall (hall ▸ hfirst)

/-- No read ends where the end of the request is seen: its response is lost. -/
lemma responses_miss (hr : Unread r) (hne : ∀ c ∈ cs, c ≠ []) (hcs : cs.flatten = r ++ y)
    (hmiss : ∀ l, l <+: cs → l.flatten = r → received r ≠ true)
    (hlate : ∀ l, l <+: cs → l.flatten ≠ r ++ crlf) :
    responses [] cs ≤ responses [] (bySymbol y) := by
  obtain hzero | ⟨ds, rest, rfl, -, hds, heq⟩ :=
    exists_first_completion (received · = true) [] cs
  · rw [responses, hzero]
    exact Nat.zero_le _
  · have hread : ds <+: ds ++ rest := List.prefix_append _ _
    have hpre : ds.flatten <+: r ++ y := hcs ▸ hread.flatten
    rw [List.nil_append] at hds
    rcases Nat.lt_or_ge r.length ds.flatten.length with hlong | hshort
    · obtain ⟨hcrlf, -⟩ | ⟨w, hw, hreceived⟩ := received_beyond hr.ends_lf hlong hpre hds
      · exact absurd hcrlf (hlate ds hread)
      · have hy : w ++ rest.flatten = y := by
          rw [List.flatten_append, hw, List.append_assoc] at hcs
          exact List.append_cancel_left hcs
        have hwne : w ≠ [] := by
          rintro rfl
          exact absurd (four_le_of_received hreceived) (by simp)
        rw [responses, heq, ← hy]
        refine Nat.le_trans (Nat.add_le_add_left ?_ 1)
          (completions_bySymbol_complete received_append hwne (received_append [] w hreceived) _)
        exact completions_le_bySymbol received_append (fun c hc => hne c (by simp [hc])) []
    · have hwithin := List.prefix_of_prefix_length_le hpre (List.prefix_append _ _) hshort
      have hall := hr.first _ hwithin hds
      exact absurd (hall ▸ hds) (hmiss ds hread hall)

/-- Read byte by byte, every request gets its response. -/
lemma responses_bySymbol (hrs : ∀ r ∈ rs, Request r) :
    responses [] (bySymbol rs.flatten) = rs.length := by
  induction rs with
  | nil => rfl
  | cons r rs ih =>
    have hr := hrs r (by simp)
    have hsplit : bySymbol (r :: rs).flatten = bySymbol r ++ bySymbol rs.flatten := by
      simp [bySymbol]
    rw [hsplit, responses_hit hr.unread hr.received (by simp [bySymbol]) (flatten_bySymbol r),
      ih fun r hr => hrs r (by simp [hr]), List.length_cons, Nat.add_comm]

end counting

/-- Every request is seen to end, when the reads have these sizes. The request starts at `pos`, and
`late` says that its first CR LF has been taken with the request before. Its end is seen by a read
that ends there, but not if it is late and nothing but CR LF is left. Otherwise it must be seen by
a read that ends two bytes later, behind a CR LF of the next request. -/
def Framed (sizes : List ℕ) : ℕ → Bool → List (List UInt8) → Prop
  | _, _, [] => True
  | pos, late, r :: rs =>
    if EndsAt sizes (pos + r.length) ∧ ¬(late = true ∧ r = crlfcrlf) then
      Framed sizes (pos + r.length) false rs
    else
      EndsAt sizes (pos + r.length + 2) ∧ crlf <+: rs.flatten ∧
        Framed sizes (pos + r.length) true rs

/-- The bytes of a request that have been taken with the request before. -/
def taken (late : Bool) : List UInt8 := if late then crlf else []

lemma Request.unread_of_taken {late : Bool} {r : List UInt8} (h : Request (taken late ++ r)) :
    Unread r ∧ (Httpd.received r = true ↔ ¬(late = true ∧ taken late ++ r = crlfcrlf)) := by
  cases late with
  | false =>
    have hr : Request r := h
    exact ⟨hr.unread, by simp [hr.received]⟩
  | true =>
    have hr : Request (crlf ++ r) := h
    exact ⟨hr.unread_of_crlf, by simp [hr.received_of_crlf, taken]⟩

lemma taken_prefix {late : Bool} {r : List UInt8} {rs cs : List (List UInt8)} (hr : Request r)
    (hcs : taken late ++ cs.flatten = (r :: rs).flatten) :
    ∃ u, r = taken late ++ u ∧ cs.flatten = u ++ rs.flatten := by
  have hlen : (taken late).length ≤ r.length := by
    have hfour := hr.ends.length_le
    cases late <;> simp [taken, crlf, crlfcrlf] at hfour ⊢
    omega
  rw [List.flatten_cons] at hcs
  obtain ⟨u, rfl⟩ := List.prefix_of_prefix_length_le
    ⟨cs.flatten, hcs⟩ (List.prefix_append r rs.flatten) hlen
  rw [List.append_assoc] at hcs
  exact ⟨u, rfl, List.append_cancel_left hcs⟩

section reads

variable {before : List ℕ} {cs ds rest : List (List UInt8)} {u v : List UInt8}
  {rs : List (List UInt8)}

lemma endsAt_reads (hv : v <+: cs.flatten) :
    EndsAt (before ++ cs.map List.length) (before.sum + v.length) ↔
      ∃ ds rest, cs = ds ++ rest ∧ ds.flatten = v :=
  endsAt_append.trans (endsAt_lengths hv)

/-- What the reads `ds` leave of the stream, and where they end. -/
lemma rest_of_reads {late : Bool} (hu : (ds ++ rest).flatten = u ++ rs.flatten)
    (hds : ds.flatten = u ++ taken late) :
    taken late ++ rest.flatten = rs.flatten ∧ (before ++ ds.map List.length).sum =
      before.sum + u.length + (taken late).length := by
  constructor
  · rw [List.flatten_append, hds, List.append_assoc] at hu
    exact List.append_cancel_left hu
  · rw [List.sum_append, ← List.length_flatten, hds, List.length_append, Nat.add_assoc]

lemma sum_add_crlf : before.sum + (u ++ crlf).length = before.sum + u.length + 2 := by
  simp [crlf, Nat.add_assoc]

/-- No read ends with the CR LF behind the request. -/
lemma flatten_ne_of_not_late (hu : cs.flatten = u ++ rs.flatten)
    (hlate : ¬(EndsAt (before ++ cs.map List.length) (before.sum + u.length + 2) ∧
      crlf <+: rs.flatten)) {l : List (List UInt8)} (hl : l <+: cs) : l.flatten ≠ u ++ crlf := by
  intro hflat
  have hpre : u ++ crlf <+: cs.flatten := hflat ▸ hl.flatten
  obtain ⟨rest, hl⟩ := hl
  have hend : EndsAt (before ++ cs.map List.length) (before.sum + u.length + 2) := by
    rw [← sum_add_crlf]
    exact (endsAt_reads hpre).mpr ⟨l, rest, hl.symm, hflat⟩
  rw [hu, List.prefix_append_right_inj] at hpre
  exact hlate ⟨hend, hpre⟩

end reads

/-- All requests get a response exactly when every one is seen to end. -/
theorem responses_eq_iff_framed {rs : List (List UInt8)} (hrs : ∀ r ∈ rs, Request r) {pos : ℕ}
    {late : Bool} {before : List ℕ} {cs : List (List UInt8)} (hne : ∀ c ∈ cs, c ≠ [])
    (hcs : taken late ++ cs.flatten = rs.flatten) (hpos : before.sum = pos + (taken late).length) :
    responses [] cs = rs.length ↔ Framed (before ++ cs.map List.length) pos late rs := by
  induction rs generalizing pos late before cs with
  | nil =>
    have hnil : cs = [] := by
      rcases cs with _ | ⟨c, cs⟩
      · rfl
      · exact absurd hcs (by simp [hne c (by simp)])
    simp [hnil, completions, Framed]
  | cons r rs ih =>
    have hrs' : ∀ r ∈ rs, Request r := fun r hr => hrs r (by simp [hr])
    obtain ⟨u, rfl, hu⟩ := taken_prefix (hrs r (by simp)) hcs
    obtain ⟨hunread, hseen⟩ := Request.unread_of_taken (hrs _ List.mem_cons_self)
    have hend : EndsAt (before ++ cs.map List.length) (before.sum + u.length) ↔
        ∃ ds rest, cs = ds ++ rest ∧ ds.flatten = u :=
      endsAt_reads (hu ▸ List.prefix_append _ _)
    have hat : pos + (taken late ++ u).length = before.sum + u.length := by
      rw [hpos, List.length_append]
      omega
    -- a read that is seen to end the request leaves the other requests to the remaining reads
    have hgo : ∀ {ds rest : List (List UInt8)} (late' : Bool), cs = ds ++ rest →
        ds.flatten = u ++ taken late' → responses [] cs = 1 + responses [] rest →
        (responses [] cs = rs.length + 1 ↔
          Framed (before ++ cs.map List.length) (before.sum + u.length) late' rs) := by
      rintro ds rest late' rfl hds hone
      obtain ⟨hrest, hsum⟩ := rest_of_reads hu hds
      rw [hone, Nat.add_comm 1, Nat.add_right_cancel_iff, List.map_append, ← List.append_assoc]
      exact ih hrs' (fun c hc => hne c (by simp [hc])) hrest hsum
    rw [Framed, hat, List.length_cons]
    by_cases hhit : EndsAt (before ++ cs.map List.length) (before.sum + u.length) ∧
        ¬(late = true ∧ taken late ++ u = crlfcrlf)
    · rw [if_pos hhit]
      obtain ⟨ds, rest, hsplit, hds⟩ := hend.mp hhit.1
      refine hgo false hsplit (by simpa [taken] using hds) ?_
      rw [hsplit]
      exact responses_hit hunread (hseen.mpr hhit.2) (fun c hc => hne c (by simp [hsplit, hc])) hds
    · rw [if_neg hhit]
      have hmiss : ∀ l, l <+: cs → l.flatten = u → received u ≠ true := by
        rintro l ⟨rest, hl⟩ hflat hreceived
        exact hhit ⟨hend.mpr ⟨l, rest, hl.symm, hflat⟩, hseen.mp hreceived⟩
      by_cases hlate : EndsAt (before ++ cs.map List.length) (before.sum + u.length + 2) ∧
          crlf <+: rs.flatten
      · have hpre : u ++ crlf <+: cs.flatten := by
          rw [hu, List.prefix_append_right_inj]
          exact hlate.2
        obtain ⟨ds, rest, hsplit, hds⟩ := (endsAt_reads hpre).mp (by rw [sum_add_crlf]; exact hlate.1)
        rw [hgo true hsplit hds, ← and_assoc, and_iff_right hlate]
        rw [hsplit]
        exact responses_late hunread (fun c hc => hne c (by simp [hsplit, hc])) hds
          fun l hl => hmiss l (hl.trans ⟨rest, hsplit.symm⟩)
      · have hlost :=
          responses_miss hunread hne hu hmiss fun l hl => flatten_ne_of_not_late hu hlate hl
        rw [responses_bySymbol hrs'] at hlost
        constructor
        · intro hall
          omega
        · exact fun h => absurd ⟨h.1, h.2.1⟩ hlate

/-- The last request is seen to end by a read that ends the stream. -/
lemma Framed.endsAt {sizes : List ℕ} {rs : List (List UInt8)} {pos : ℕ} {late : Bool}
    (h : Framed sizes pos late rs) (hne : rs ≠ []) :
    EndsAt sizes (pos + rs.flatten.length) := by
  induction rs generalizing pos late with
  | nil => exact absurd rfl hne
  | cons r rs ih =>
    rw [List.flatten_cons, List.length_append, ← Nat.add_assoc]
    rw [Framed] at h
    rcases eq_or_ne rs [] with rfl | hrs
    · split at h
      · next hhit => exact hhit.1
      · simp [crlf] at h
    · split at h
      · exact ih h hrs
      · exact ih h.2.2 hrs

/-- Reads that do not fail, and writes that complete in full. -/
def Smooth (a : Action) : Prop :=
  a ≠ .readError ∧ ∀ n, a = .writeable n → n = some response.length

/-- The results of `read` that are not 0. -/
def readSizes (as : List Action) : List ℕ :=
  as.filterMap fun
    | .readable n => if n = 0 then none else some n
    | _ => none

/-- The buffer is empty and nothing of the response is sent while a response is due. -/
structure Ready (s : State) : Prop where
  fits : s.conn.cur ≤ bufSize
  fresh : s.conn.mask = .writable → s.conn.buf = [] ∧ s.conn.writeCur = 0

/-- What a smooth step does. -/
inductive SmoothMove (s : State) : Action → State → List Event → Prop
  | close (hmask : s.conn.mask = .readable) :
      SmoothMove s (.readable 0) { s with conn := { s.conn with mask := .closed } } []
  | answer (n : ℕ) (hmask : s.conn.mask = .readable) (hn : n ≠ 0) (hlen : n ≤ s.input.length)
      (hreceived : received (s.conn.buf ++ s.input.take n) = true) :
      SmoothMove s (.readable n) ⟨⟨[], 0, .writable⟩, s.input.drop n⟩ []
  | collect (n : ℕ) (hmask : s.conn.mask = .readable) (hn : n ≠ 0) (hlen : n ≤ s.input.length)
      (hspace : n ≤ bufSize - s.conn.cur)
      (hreceived : received (s.conn.buf ++ s.input.take n) ≠ true) :
      SmoothMove s (.readable n)
        ⟨{ s.conn with buf := s.conn.buf ++ s.input.take n }, s.input.drop n⟩ []
  | send (hmask : s.conn.mask = .writable) (hbuf : s.conn.buf = []) :
      SmoothMove s (.writeable (some response.length))
        ⟨⟨[], response.length, .readable⟩, s.input⟩ [.sent response]

lemma smooth_move {s s' : State} {a : Action} {es : List Event} (hready : Ready s)
    (ha : Smooth a) (h : step s a = some (s', es)) : SmoothMove s a s' es := by
  cases step_move h with
  | close _ hmask hcause =>
    obtain rfl | ⟨rfl, -⟩ := hcause
    · exact absurd rfl ha.1
    · exact .close hmask
  | answer n hmask hn hlen hspace hreceived =>
    exact .answer n hmask (Nat.ne_of_gt hn) hlen hreceived
  | collect n hmask hn hlen hspace hreceived =>
    exact .collect n hmask (Nat.ne_of_gt hn) hlen hspace (by simp [hreceived])
  | retry hmask => exact absurd (ha.2 none rfl) (by simp)
  | finish n hmask hn hall =>
    obtain rfl := Option.some.inj (ha.2 (some n) rfl)
    obtain ⟨hbuf, hcur⟩ := hready.fresh hmask
    simpa [Connection.offered, hcur, hbuf] using SmoothMove.send hmask hbuf
  | short n hmask hn hpart =>
    obtain rfl := Option.some.inj (ha.2 (some n) rfl)
    exact absurd hpart (by simp [(hready.fresh hmask).2])

lemma ready_step {s s' : State} {a : Action} {es : List Event} (hready : Ready s)
    (ha : Smooth a) (h : step s a = some (s', es)) : Ready s' := by
  cases smooth_move hready ha h with
  | close hmask => exact ⟨hready.fits, by simp⟩
  | answer n hmask hn hlen hreceived => exact ⟨Nat.zero_le _, fun _ => ⟨rfl, rfl⟩⟩
  | collect n hmask hn hlen hspace hreceived =>
    have hfits := hready.fits
    refine ⟨?_, by simp [hmask]⟩
    simp only [Connection.cur, List.length_append, List.length_take] at hfits hspace ⊢
    omega
  | send hmask hbuf => exact ⟨Nat.zero_le _, by simp⟩

/-- One response is due after a complete request. -/
def due (s : State) : ℕ := if s.conn.mask = .writable then 1 else 0

/-- What a smooth run that ends closed reads and sends. -/
structure Served (s t : State) (sizes : List ℕ) (es : List Event) : Prop where
  sent : ∀ bytes, observe record bytes es = bytes ++
    (List.replicate (due s + responses s.conn.buf (chunks s.input sizes)) response).flatten
  nonempty : ∀ c ∈ chunks s.input sizes, c ≠ []
  within : sizes.sum ≤ s.input.length
  unread : t.input = s.input.drop sizes.sum

/-- A read of `n` bytes, after which as many responses are due or to come. -/
lemma Served.read {s s' t : State} {sizes : List ℕ} {es : List Event} {n : ℕ}
    (h : Served s' t sizes es) (hn : n ≠ 0) (hlen : n ≤ s.input.length)
    (hinput : s'.input = s.input.drop n)
    (hcount : due s + responses s.conn.buf (s.input.take n :: chunks s'.input sizes) =
      due s' + responses s'.conn.buf (chunks s'.input sizes)) :
    Served s t (n :: sizes) es := by
  have hwithin := h.within
  rw [hinput, List.length_drop] at hwithin
  refine ⟨fun bytes => ?_, fun c hc => ?_, ?_, ?_⟩
  · rw [chunks, ← hinput, hcount]
    exact h.sent bytes
  · rw [chunks, ← hinput, List.mem_cons] at hc
    rcases hc with rfl | hc
    · apply List.ne_nil_of_length_pos
      rw [List.length_take]
      omega
    · exact h.nonempty c hc
  · rw [List.sum_cons]
    omega
  · rw [h.unread, hinput, List.drop_drop, List.sum_cons]

lemma served_of_run {s t : State} {as : List Action} {es : List Event}
    (has : ∀ a ∈ as, Smooth a) (hready : Ready s) (hrun : run step s as = some (t, es))
    (hclosed : t.conn.mask = .closed) : Served s t (readSizes as) es := by
  induction as generalizing s es with
  | nil =>
    simp only [run_nil, Option.some.injEq, Prod.mk.injEq] at hrun
    obtain ⟨rfl, rfl⟩ := hrun
    exact ⟨by simp [due, hclosed, chunks, completions, readSizes], by simp [readSizes, chunks],
      Nat.zero_le _, rfl⟩
  | cons a as ih =>
    obtain ⟨s', e, f, hs, hr, rfl⟩ := (run_cons_iff step s t a as es).mp hrun
    have ha := has a (by simp)
    have hrest := ih (fun b hb => has b (by simp [hb])) (ready_step hready ha hs) hr
    cases smooth_move hready ha hs with
    | close hmask =>
      refine ⟨fun bytes => ?_, hrest.nonempty, hrest.within, hrest.unread⟩
      simpa [due, hmask, readSizes] using hrest.sent bytes
    | answer n hmask hn hlen hreceived =>
      have hsizes : readSizes (.readable n :: as) = n :: readSizes as := by simp [readSizes, hn]
      rw [hsizes]
      refine hrest.read hn hlen rfl ?_
      rw [responses_cons, if_pos hreceived]
      simp [due, hmask]
    | collect n hmask hn hlen hspace hreceived =>
      have hsizes : readSizes (.readable n :: as) = n :: readSizes as := by simp [readSizes, hn]
      rw [hsizes]
      refine hrest.read hn hlen rfl ?_
      rw [responses_cons, if_neg hreceived]
      rfl
    | send hmask hbuf =>
      refine ⟨fun bytes => ?_, hrest.nonempty, hrest.within, hrest.unread⟩
      have hsent := hrest.sent (bytes ++ response)
      simp only [due, reduceCtorEq, if_false, Nat.zero_add] at hsent
      rw [List.singleton_append, observe_cons, record, hsent]
      simp [due, hmask, hbuf, Nat.add_comm 1, List.replicate_succ, readSizes]

/-- What is left to do: every byte to be read, the response that is due, and the close. -/
def work (s : State) : ℕ :=
  2 * s.input.length +
    match s.conn.mask with
    | .writable => 2
    | .readable => 1
    | .closed => 0

lemma work_step {s s' : State} {a : Action} {es : List Event} (hready : Ready s)
    (ha : Smooth a) (h : step s a = some (s', es)) : work s' < work s := by
  cases smooth_move hready ha h with
  | close hmask => simp [work, hmask]
  | answer n hmask hn hlen hreceived =>
    simp only [work, hmask, List.length_drop]
    omega
  | collect n hmask hn hlen hspace hreceived =>
    simp only [work, hmask, List.length_drop]
    omega
  | send hmask hbuf => simp [work, hmask]

/-- A smooth run comes to an end. -/
lemma smooth_run_length {s t : State} {as : List Action} {es : List Event}
    (has : ∀ a ∈ as, Smooth a) (hready : Ready s) (hrun : run step s as = some (t, es)) :
    Ready t ∧ as.length + work t ≤ work s := by
  induction as generalizing s es with
  | nil =>
    simp only [run_nil, Option.some.injEq, Prod.mk.injEq] at hrun
    obtain ⟨rfl, rfl⟩ := hrun
    exact ⟨hready, by simp⟩
  | cons a as ih =>
    obtain ⟨s', e, f, hs, hr, rfl⟩ := (run_cons_iff step s t a as es).mp hrun
    have ha := has a (by simp)
    have hless := work_step hready ha hs
    obtain ⟨hready', hlen⟩ := ih (fun b hb => has b (by simp [hb])) (ready_step hready ha hs) hr
    refine ⟨hready', ?_⟩
    rw [List.length_cons]
    omega

/-- An open connection can go on. -/
lemma exists_smooth_step {s : State} (hready : Ready s) (hopen : s.conn.mask ≠ .closed) :
    ∃ a, Smooth a ∧ (step s a).isSome := by
  cases hmask : s.conn.mask with
  | closed => exact absurd hmask hopen
  | readable =>
    have hfits := hready.fits
    refine ⟨.readable (min (bufSize - s.conn.cur) s.input.length), ⟨by simp, by simp⟩, ?_⟩
    have hzero : min (bufSize - s.conn.cur) s.input.length = 0 →
        s.input = [] ∨ s.conn.cur = bufSize := by
      intro hmin
      rcases Nat.eq_zero_or_pos s.input.length with hinput | hinput
      · exact .inl (List.eq_nil_of_length_eq_zero hinput)
      · exact .inr (by omega)
    simp only [step, hmask]
    rw [if_pos ⟨trivial, Nat.min_le_left _ _, Nat.min_le_right _ _, hzero⟩]
    rfl
  | writable =>
    refine ⟨.writeable (some response.length), ⟨by simp, by simp⟩, ?_⟩
    simp [step, hmask, Connection.offered, (hready.fresh hmask).2]

lemma flatten_replicate_response_inj {m k : ℕ} :
    (List.replicate m response).flatten = (List.replicate k response).flatten ↔ m = k := by
  constructor
  · intro h
    have hlen := congrArg List.length h
    simp only [List.length_flatten, List.map_replicate, List.sum_replicate_nat,
      length_response] at hlen
    omega
  · rintro rfl
    rfl

/-- Smooth runs end closed. Every request then has its response, and the connection has been
closed at the end of the stream, exactly when the end of every request has been seen by a read. -/
theorem answered_iff_framed {requests : List (List UInt8)}
    (hrequests : ∀ r ∈ requests, Request r) {as : List Action} (has : ∀ a ∈ as, Smooth a)
    {s : State} {es : List Event} (hrun : run step (start requests.flatten) as = some (s, es)) :
    as.length ≤ 2 * requests.flatten.length + 1 ∧
    (s.conn.mask ≠ .closed → ∃ a, Smooth a ∧ (step s a).isSome) ∧
    (s.conn.mask = .closed →
      (observe record [] es = (List.replicate requests.length response).flatten ∧ s.input = [] ↔
        Framed (readSizes as) 0 false requests)) := by
  have hstart : Ready (start requests.flatten) := ⟨Nat.zero_le _, by simp [start]⟩
  obtain ⟨hready, hlen⟩ := smooth_run_length has hstart hrun
  refine ⟨Nat.le_trans (Nat.le_add_right _ _) hlen, exists_smooth_step hready, fun hclosed => ?_⟩
  have hserved := served_of_run has hstart hrun hclosed
  have hwithin : (readSizes as).sum ≤ requests.flatten.length := hserved.within
  have hinput : s.input = requests.flatten.drop (readSizes as).sum := hserved.unread
  have hsent : observe record [] es = (List.replicate
      (responses [] (chunks requests.flatten (readSizes as))) response).flatten := by
    simpa [start, due] using hserved.sent []
  rw [hsent, flatten_replicate_response_inj, hinput, List.drop_eq_nil_iff]
  by_cases hall : requests.flatten.length ≤ (readSizes as).sum
  · have hflat : taken false ++ (chunks requests.flatten (readSizes as)).flatten =
        requests.flatten := by
      rw [flatten_chunks, List.take_of_length_le hall]
      rfl
    have hframed : responses [] (chunks requests.flatten (readSizes as)) = requests.length ↔
        Framed ([] ++ (chunks requests.flatten (readSizes as)).map List.length) 0 false requests :=
      responses_eq_iff_framed hrequests hserved.nonempty hflat rfl
    rw [and_iff_left hall, hframed, List.nil_append, map_length_chunks hwithin]
  · -- the connection was closed with a full buffer
    refine iff_of_false (fun h => hall h.2) fun hframed => hall ?_
    have hne : requests ≠ [] := by
      rintro rfl
      simp at hall
    simpa using (hframed.endsAt hne).le_sum

/-- `G` CR LF CR LF -/
def shortRequest : List UInt8 := 71 :: crlfcrlf

lemma request_shortRequest : Request shortRequest where
  ends := List.suffix_cons _ _
  first t ht hends := by
    have hall : ∀ t ∈ shortRequest.inits, crlfcrlf <:+ t → t = shortRequest := by decide
    exact hall t ((List.mem_inits t _).mpr ht) hends

lemma framed_two_reads : Framed [3, 2, 5] 0 false [shortRequest, shortRequest] := by
  rw [Framed, if_pos (by decide), Framed, if_pos (by decide)]
  trivial

lemma step_send (input : List UInt8) :
    step ⟨⟨[], 0, .writable⟩, input⟩ (.writeable (some 133)) =
      some (⟨⟨[], 133, .readable⟩, input⟩, [.sent response]) := by
  simp [step, Connection.offered, socketWriteable, ← length_response]

lemma step_close : step ⟨⟨[], 133, .readable⟩, []⟩ (.readable 0) =
    some (⟨⟨[], 133, .closed⟩, []⟩, []) := by decide

/-- Two requests, the first of them in two reads, are both answered. -/
theorem answered_two_requests :
    ∃ s es, run step (start [shortRequest, shortRequest].flatten)
        [.readable 3, .readable 2, .writeable (some 133), .readable 5, .writeable (some 133),
          .readable 0] = some (s, es) ∧
      observe record [] es = (List.replicate 2 response).flatten ∧ s.input = [] := by
  have hrun : run step (start [shortRequest, shortRequest].flatten)
      [.readable 3, .readable 2, .writeable (some 133), .readable 5, .writeable (some 133),
        .readable 0] =
      some (⟨⟨[], 133, .closed⟩, []⟩, [.sent response, .sent response]) := by
    have hfirst : run step (start [shortRequest, shortRequest].flatten) [.readable 3, .readable 2] =
        some (⟨⟨[], 0, .writable⟩, shortRequest⟩, []) := by decide
    have hsecond : step ⟨⟨[], 133, .readable⟩, shortRequest⟩ (.readable 5) =
        some (⟨⟨[], 0, .writable⟩, []⟩, []) := by decide
    refine (run_append_iff step _ _ [.readable 3, .readable 2] _ _).mpr ⟨_, _, _, hfirst, ?_, rfl⟩
    simp [run, step_send, hsecond, step_close]
  refine ⟨_, _, hrun, ((answered_iff_framed ?_ ?_ hrun).2.2 rfl).mpr framed_two_reads⟩
  · simp [request_shortRequest]
  · simp [Smooth, length_response]

/-- Two requests arrive in one read: the connection is closed after one response. -/
theorem pipelined_request_unanswered :
    (∀ r ∈ [shortRequest, shortRequest], Request r) ∧
    (run step (start [shortRequest, shortRequest].flatten)
        [.readable 10, .writeable (some 133), .readable 0]).map
        (fun p => (p.1.conn.mask, p.1.input, observe record [] p.2)) =
      some (.closed, [], response) ∧
    response ≠ (List.replicate 2 response).flatten := by
  have hread : step (start [shortRequest, shortRequest].flatten) (.readable 10) =
      some (⟨⟨[], 0, .writable⟩, []⟩, []) := by decide
  refine ⟨by simp [request_shortRequest], ?_, ?_⟩
  · simp only [run, hread, step_send, step_close]
    rfl
  · have hone : response = (List.replicate 1 response).flatten := by simp
    intro htwo
    exact absurd (flatten_replicate_response_inj.mp (hone.symm.trans htwo)) (by decide)

end CodeC.Httpd
