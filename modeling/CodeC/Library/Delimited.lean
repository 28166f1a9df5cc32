import Mathlib.Data.List.Infix
import Mathlib.Algebra.BigOperators.Group.List.Basic
import Mathlib.Algebra.GroupWithZero.Nat

/-!
# Delimited messages in a chunked stream

A reader collects the chunks of a stream in a buffer. After every chunk it tests the buffer, and
when it is `complete` it counts one message and empties the buffer. Chunks that end in the middle
of a message, or that hold several messages, are all possible.
-/

namespace CodeC.Library

variable {α : Type}

section counting

variable (complete : List α → Prop) [DecidablePred complete]

/-- The number of times the buffer tests as complete while the chunks are read. -/
def completions : List α → List (List α) → ℕ
  | _, [] => 0
  | buf, c :: cs =>
    if complete (buf ++ c) then 1 + completions [] cs else completions (buf ++ c) cs

/-- A stream read one symbol at a time. -/
def bySymbol (z : List α) : List (List α) := z.map ([·])

lemma flatten_bySymbol (z : List α) : (bySymbol z).flatten = z := by
  induction z with
  | nil => rfl
  | cons x z ih => simpa [bySymbol] using ih

variable {complete}

lemma completions_of_complete {buf c : List α} (h : complete (buf ++ c)) (cs : List (List α)) :
    completions complete buf (c :: cs) = 1 + completions complete [] cs := by
  rw [completions, if_pos h]

lemma completions_of_not_complete {buf c : List α} (h : ¬complete (buf ++ c))
    (cs : List (List α)) :
    completions complete buf (c :: cs) = completions complete (buf ++ c) cs := by
  rw [completions, if_neg h]

/-- Reading up to the first complete buffer. -/
lemma completions_append {buf : List α} {cs ds : List (List α)} (hne : cs ≠ [])
    (hcomplete : complete (buf ++ cs.flatten))
    (hfirst : ∀ l, l <+: cs → l ≠ [] → l ≠ cs → ¬complete (buf ++ l.flatten)) :
    completions complete buf (cs ++ ds) = 1 + completions complete [] ds := by
  induction cs generalizing buf with
  | nil => exact absurd rfl hne
  | cons c cs ih =>
    cases cs with
    | nil => exact completions_of_complete (by simpa using hcomplete) ds
    | cons c' cs =>
      have hc : ¬complete (buf ++ c) := by
        simpa using hfirst [c] (by simp) (by simp) (by simp)
      rw [List.cons_append, completions_of_not_complete hc]
      refine ih (by simp) (by simpa using hcomplete) fun l hl hne' hl' => ?_
      simpa using hfirst (c :: l) (by simpa using hl) (by simp) (by simpa using hl')

/-- Either no buffer is ever complete, or some read completes the first one. -/
lemma exists_first_completion (complete : List α → Prop) [DecidablePred complete] (buf : List α)
    (cs : List (List α)) :
    completions complete buf cs = 0 ∨
      ∃ ds rest, cs = ds ++ rest ∧ ds ≠ [] ∧ complete (buf ++ ds.flatten) ∧
        completions complete buf cs = 1 + completions complete [] rest := by
  induction cs generalizing buf with
  | nil => exact .inl rfl
  | cons c cs ih =>
    by_cases hc : complete (buf ++ c)
    · exact .inr ⟨[c], cs, rfl, by simp, by simpa using hc, completions_of_complete hc cs⟩
    · rw [completions_of_not_complete hc]
      obtain hzero | ⟨ds, rest, rfl, -, hds, heq⟩ := ih (buf ++ c)
      · exact .inl hzero
      · exact .inr ⟨c :: ds, rest, rfl, by simp, by simpa using hds, heq⟩

end counting

section optimality

/- A complete buffer stays complete when older symbols are put in front of it. Reading one symbol
at a time then finds the most messages. -/
variable {complete : List α → Prop} [DecidablePred complete]
  (hmono : ∀ p q, complete q → complete (p ++ q))
include hmono

/-- Older symbols in the buffer lose no message and gain at most one. -/
lemma completions_bySymbol_buffer (z : List α) : ∀ p q,
    completions complete q (bySymbol z) ≤ completions complete (p ++ q) (bySymbol z) ∧
      completions complete (p ++ q) (bySymbol z) ≤ 1 + completions complete q (bySymbol z) := by
  induction z with
  | nil => simp [bySymbol, completions]
  | cons x z ih =>
    intro p q
    have hz : bySymbol (x :: z) = [x] :: bySymbol z := rfl
    have hempty := ih (q ++ [x]) []
    rw [List.append_nil] at hempty
    rw [hz]
    by_cases hq : complete (q ++ [x])
    · have hpq : complete (p ++ q ++ [x]) := by
        rw [List.append_assoc]
        exact hmono p _ hq
      rw [completions_of_complete hq, completions_of_complete hpq]
      omega
    · rw [completions_of_not_complete hq]
      by_cases hpq : complete (p ++ q ++ [x])
      · rw [completions_of_complete hpq]
        omega
      · rw [completions_of_not_complete hpq, List.append_assoc]
        exact ih p (q ++ [x])

/-- Symbols in front of a stream lose none of its messages. -/
lemma completions_bySymbol_prepend (w z buf : List α) :
    completions complete [] (bySymbol z) ≤ completions complete buf (bySymbol (w ++ z)) := by
  induction w generalizing buf with
  | nil => simpa using (completions_bySymbol_buffer hmono z buf []).1
  | cons x w ih =>
    change _ ≤ completions complete buf ([x] :: bySymbol (w ++ z))
    by_cases hx : complete (buf ++ [x])
    · rw [completions_of_complete hx]
      exact Nat.le_trans (ih []) (Nat.le_add_left _ _)
    · rw [completions_of_not_complete hx]
      exact ih _

/-- A complete stretch in front of a stream adds a message. -/
lemma completions_bySymbol_complete {buf w : List α} (hne : w ≠ []) (hw : complete (buf ++ w))
    (z : List α) :
    1 + completions complete [] (bySymbol z) ≤ completions complete buf (bySymbol (w ++ z)) := by
  induction w generalizing buf with
  | nil => exact absurd rfl hne
  | cons x w ih =>
    change _ ≤ completions complete buf ([x] :: bySymbol (w ++ z))
    by_cases hx : complete (buf ++ [x])
    · rw [completions_of_complete hx]
      exact Nat.add_le_add_left (completions_bySymbol_prepend hmono w z []) 1
    · rw [completions_of_not_complete hx]
      refine ih ?_ (by simpa using hw)
      rintro rfl
      exact hx hw

/-- Symbols that are still to be read one by one find as many messages as symbols already in the
buffer. -/
lemma completions_bySymbol_unread (w z buf : List α) :
    completions complete (buf ++ w) (bySymbol z) ≤
      completions complete buf (bySymbol (w ++ z)) := by
  induction w generalizing buf with
  | nil => simp
  | cons x w ih =>
    have hread := ih (buf ++ [x])
    rw [List.append_assoc, List.singleton_append] at hread
    change _ ≤ completions complete buf ([x] :: bySymbol (w ++ z))
    by_cases hx : complete (buf ++ [x])
    · have hone := (completions_bySymbol_buffer hmono (w ++ z) (buf ++ [x]) []).2
      rw [List.append_nil] at hone
      rw [completions_of_complete hx]
      exact Nat.le_trans hread hone
    · rw [completions_of_not_complete hx]
      exact hread

/-- No way of cutting a stream into chunks finds more messages than reading it by symbols. -/
theorem completions_le_bySymbol {cs : List (List α)} (hne : ∀ c ∈ cs, c ≠ []) (buf : List α) :
    completions complete buf cs ≤ completions complete buf (bySymbol cs.flatten) := by
  induction cs generalizing buf with
  | nil => simp [completions]
  | cons c cs ih =>
    have htail := ih fun d hd => hne d (by simp [hd])
    rw [List.flatten_cons]
    by_cases hc : complete (buf ++ c)
    · rw [completions_of_complete hc]
      exact Nat.le_trans (Nat.add_le_add_left (htail []) 1)
        (completions_bySymbol_complete hmono (hne c (by simp)) hc _)
    · rw [completions_of_not_complete hc]
      exact Nat.le_trans (htail _) (completions_bySymbol_unread hmono c _ buf)

end optimality

section reads

/-- Some first reads of these sizes return `p` symbols together. -/
def EndsAt (sizes : List ℕ) (p : ℕ) : Prop := ∃ l, l <+: sizes ∧ l.sum = p

lemma EndsAt.le_sum {sizes : List ℕ} {p : ℕ} (h : EndsAt sizes p) : p ≤ sizes.sum := by
  obtain ⟨l, ⟨rest, rfl⟩, rfl⟩ := h
  rw [List.sum_append]
  exact Nat.le_add_right _ _

lemma endsAt_append {before rest : List ℕ} {n : ℕ} :
    EndsAt (before ++ rest) (before.sum + n) ↔ EndsAt rest n := by
  constructor
  · rintro ⟨l, hl, hsum⟩
    obtain hshort | ⟨l', rfl⟩ := List.prefix_or_prefix_of_prefix hl (List.prefix_append before rest)
    · obtain ⟨l', rfl⟩ := hshort
      refine ⟨[], List.nil_prefix, ?_⟩
      simp only [List.sum_append, List.sum_nil] at hsum ⊢
      omega
    · refine ⟨l', (List.prefix_append_right_inj before).mp hl, ?_⟩
      simpa using hsum
  · rintro ⟨l, hl, rfl⟩
    exact ⟨before ++ l, (List.prefix_append_right_inj before).mpr hl, by simp⟩

/-- A proper part of some non-empty chunks holds fewer symbols. -/
lemma flatten_length_lt {l cs : List (List α)} (hl : l <+: cs) (hproper : l ≠ cs)
    (hne : ∀ c ∈ cs, c ≠ []) : l.flatten.length < cs.flatten.length := by
  obtain ⟨rest, rfl⟩ := hl
  rcases rest with _ | ⟨c, rest⟩
  · simp at hproper
  · have hc := List.length_pos_of_ne_nil (hne c (by simp))
    simp only [List.flatten_append, List.flatten_cons, List.length_append]
    omega

lemma endsAt_lengths {cs : List (List α)} {v : List α} (hv : v <+: cs.flatten) :
    EndsAt (cs.map List.length) v.length ↔ ∃ ds rest, cs = ds ++ rest ∧ ds.flatten = v := by
  constructor
  · rintro ⟨l, hl, hsum⟩
    rw [List.prefix_iff_eq_take, List.map_take.symm] at hl
    refine ⟨cs.take l.length, cs.drop l.length, (List.take_append_drop _ _).symm, ?_⟩
    have hlen : (cs.take l.length).flatten.length = v.length := by
      rw [List.length_flatten, ← hl, hsum]
    exact (List.prefix_of_prefix_length_le (List.take_prefix _ _).flatten hv
      (Nat.le_of_eq hlen)).eq_of_length hlen
  · rintro ⟨ds, rest, rfl, rfl⟩
    exact ⟨ds.map List.length, by simp, by simp [List.length_flatten]⟩

instance (sizes : List ℕ) (p : ℕ) : Decidable (EndsAt sizes p) :=
  decidable_of_iff (∃ l ∈ sizes.inits, l.sum = p) (by simp [EndsAt, List.mem_inits])

/-- The stream cut into chunks of the given sizes. -/
def chunks : List α → List ℕ → List (List α)
  | _, [] => []
  | z, n :: ns => z.take n :: chunks (z.drop n) ns

lemma flatten_chunks (z : List α) (ns : List ℕ) : (chunks z ns).flatten = z.take ns.sum := by
  induction ns generalizing z with
  | nil => simp [chunks]
  | cons n ns ih => rw [chunks, List.flatten_cons, ih, List.sum_cons, List.take_add]

lemma map_length_chunks {z : List α} {ns : List ℕ} (h : ns.sum ≤ z.length) :
    (chunks z ns).map List.length = ns := by
  induction ns generalizing z with
  | nil => rfl
  | cons n ns ih =>
    rw [List.sum_cons] at h
    rw [chunks, List.map_cons, ih (by rw [List.length_drop]; omega), List.length_take,
      Nat.min_eq_left (by omega)]

end reads

end CodeC.Library
