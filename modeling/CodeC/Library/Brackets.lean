import Mathlib.Data.List.Basic
import Mathlib.Data.Int.Basic
import Mathlib.Order.Lattice

/-!
# Words of brackets

Every word of brackets is a chain of balanced blocks, separated by brackets that have no partner:
first closing ones, then opening ones. A balanced part of the word lies in one of the blocks.
-/

namespace CodeC.Library.Brackets

/-- A balanced word over the brackets `o` and `c` -/
inductive Balanced {α : Type} (o c : α) : List α → Prop
  | nil : Balanced o c []
  | wrap {u w : List α} (hu : Balanced o c u) (hw : Balanced o c w) :
      Balanced o c (o :: (u ++ c :: w))

variable {α : Type} {o c : α} {u w : List α}

lemma Balanced.append (hu : Balanced o c u) (hw : Balanced o c w) : Balanced o c (u ++ w) := by
  induction hu with
  | nil => exact hw
  | wrap hu _ _ ih =>
    rw [List.cons_append, List.append_assoc, List.cons_append]
    exact .wrap hu ih

section height

variable [DecidableEq α]

/-- Opening brackets less closing ones -/
def height (o c : α) (u : List α) : ℤ := (u.count o : ℤ) - u.count c

@[simp] lemma height_nil : height o c ([] : List α) = 0 := rfl

@[simp] lemma height_append (u w : List α) : height o c (u ++ w) = height o c u + height o c w := by
  simp only [height, List.count_append]
  omega

lemma height_open (hoc : o ≠ c) (u : List α) : height o c (o :: u) = height o c u + 1 := by
  simp only [height, List.count_cons_self, List.count_cons_of_ne hoc]
  omega

lemma height_close (hoc : o ≠ c) (u : List α) : height o c (c :: u) = height o c u - 1 := by
  simp only [height, List.count_cons_self, List.count_cons_of_ne hoc.symm]
  omega

lemma Balanced.height_eq_zero (hoc : o ≠ c) (h : Balanced o c u) : height o c u = 0 := by
  induction h with
  | nil => rfl
  | wrap _ _ ihu ihw =>
    rw [height_open hoc, height_append, height_close hoc, ihu, ihw]
    omega

lemma Balanced.height_prefix (hoc : o ≠ c) (h : Balanced o c u) {p : List α} (hp : p <+: u) :
    0 ≤ height o c p := by
  induction h generalizing p with
  | nil => rw [List.prefix_nil.mp hp, height_nil]
  | @wrap u w hu hw ihu ihw =>
    cases p with
    | nil => rw [height_nil]
    | cons a p =>
      obtain ⟨rfl, t, ht⟩ := List.cons_prefix_cons.mp hp
      rw [height_open hoc]
      rcases List.append_eq_append_iff.mp ht with ⟨q, rfl, -⟩ | ⟨q, rfl, hq⟩
      · have := ihu (List.prefix_append p q)
        omega
      · rw [height_append, hu.height_eq_zero hoc]
        cases q with
        | nil => simp
        | cons a q =>
          obtain ⟨rfl, rfl⟩ := List.cons.inj hq
          have := ihw (List.prefix_append q t)
          rw [height_close hoc]
          omega

lemma Balanced.height_suffix (hoc : o ≠ c) (h : Balanced o c u) {q : List α} (hq : q <:+ u) :
    height o c q ≤ 0 := by
  obtain ⟨p, rfl⟩ := hq
  have hp := h.height_prefix hoc (List.prefix_append p q)
  have htotal := h.height_eq_zero hoc
  rw [height_append] at htotal
  omega

end height

/-- A word of brackets, with its last block outermost -/
inductive Blocks (α : Type) where
  | base (B : List α)
  | unopened (t : Blocks α) (B : List α)
  | unclosed (t : Blocks α) (B : List α)

namespace Blocks

def block : Blocks α → List α
  | base B => B
  | unopened _ B => B
  | unclosed _ B => B

def text (o c : α) : Blocks α → List α
  | base B => B
  | unopened t B => t.text o c ++ c :: B
  | unclosed t B => t.text o c ++ o :: B

/-- The last block goes on. -/
def add (C : List α) : Blocks α → Blocks α
  | base B => base (B ++ C)
  | unopened t B => unopened t (B ++ C)
  | unclosed t B => unclosed t (B ++ C)

def longest : Blocks α → ℕ
  | base B => B.length
  | unopened t B => max t.longest B.length
  | unclosed t B => max t.longest B.length

/-- No opening bracket is left without its partner. -/
def Closed : Blocks α → Prop
  | base _ => True
  | unopened _ _ => True
  | unclosed _ _ => False

/-- The blocks are balanced, and a closing bracket has no partner only when none is left. -/
inductive WF (o c : α) : Blocks α → Prop
  | base {B : List α} (hB : Balanced o c B) : WF o c (base B)
  | unopened {t : Blocks α} {B : List α} (ht : WF o c t) (hclosed : t.Closed)
      (hB : Balanced o c B) : WF o c (unopened t B)
  | unclosed {t : Blocks α} {B : List α} (ht : WF o c t) (hB : Balanced o c B) :
      WF o c (unclosed t B)

variable {t : Blocks α}

lemma text_add (o c : α) (C : List α) (t : Blocks α) : (t.add C).text o c = t.text o c ++ C := by
  cases t <;> simp [add, text]

lemma WF.add {C : List α} (ht : WF o c t) (hC : Balanced o c C) : WF o c (t.add C) := by
  cases ht with
  | base hB => exact .base (hB.append hC)
  | unopened ht hclosed hB => exact .unopened ht hclosed (hB.append hC)
  | unclosed ht hB => exact .unclosed ht (hB.append hC)

/-- The longest block is a balanced part of the word. -/
lemma WF.exists_longest (ht : WF o c t) :
    ∃ B, B <:+: t.text o c ∧ Balanced o c B ∧ B.length = t.longest := by
  induction ht with
  | @base B hB => exact ⟨B, List.infix_rfl, hB, rfl⟩
  | @unopened t B _ _ hB ih =>
    obtain ⟨C, hinfix, hC, hlen⟩ := ih
    rcases Nat.le_total t.longest B.length with hle | hle
    · exact ⟨B, ⟨t.text o c ++ [c], [], by simp [text]⟩, hB, (Nat.max_eq_right hle).symm⟩
    · refine ⟨C, hinfix.trans (List.prefix_append _ _).isInfix, hC, ?_⟩
      rw [hlen, longest, Nat.max_eq_left hle]
  | @unclosed t B _ hB ih =>
    obtain ⟨C, hinfix, hC, hlen⟩ := ih
    rcases Nat.le_total t.longest B.length with hle | hle
    · exact ⟨B, ⟨t.text o c ++ [o], [], by simp [text]⟩, hB, (Nat.max_eq_right hle).symm⟩
    · refine ⟨C, hinfix.trans (List.prefix_append _ _).isInfix, hC, ?_⟩
      rw [hlen, longest, Nat.max_eq_left hle]

/-- A part of `v ++ a :: w` lies on one side of `a` or contains it. -/
lemma infix_append_cons {u v w : List α} {a : α} (h : u <:+: v ++ a :: w) :
    u <:+: v ∨ u <:+: w ∨ ∃ p q, u = p ++ a :: q ∧ p <:+ v ∧ q <+: w := by
  obtain ⟨s, t, h⟩ := h
  rw [List.append_assoc] at h
  rcases List.append_eq_append_iff.mp h with ⟨x, rfl, hx⟩ | ⟨y, rfl, hy⟩
  · rcases List.append_eq_append_iff.mp hx with ⟨y, rfl, -⟩ | ⟨z, rfl, hz⟩
    · exact .inl ⟨s, y, by simp⟩
    · cases z with
      | nil => exact .inl ⟨s, [], by simp⟩
      | cons b z =>
        obtain ⟨rfl, rfl⟩ := List.cons.inj hz
        exact .inr (.inr ⟨x, z, rfl, List.suffix_append s x, List.prefix_append z t⟩)
  · cases y with
    | nil =>
      cases u with
      | nil => exact .inl (List.nil_infix)
      | cons b u =>
        obtain ⟨rfl, rfl⟩ := List.cons.inj hy
        exact .inr (.inr ⟨[], u, rfl, List.nil_suffix, List.prefix_append u t⟩)
    | cons b y =>
      obtain ⟨-, rfl⟩ := List.cons.inj hy
      exact .inr (.inl ⟨y, t, by simp⟩)

variable [DecidableEq α]

lemma WF.height_suffix (hoc : o ≠ c) (ht : WF o c t) (hclosed : t.Closed) {q : List α}
    (hq : q <:+ t.text o c) : height o c q ≤ 0 := by
  induction ht generalizing q with
  | base hB => exact hB.height_suffix hoc hq
  | @unopened t B ht hclosed' hB ih =>
    obtain ⟨p, hpq⟩ := hq
    rcases List.append_eq_append_iff.mp hpq with ⟨x, hx, rfl⟩ | ⟨y, -, hy⟩
    · have hneg := ih hclosed' ⟨p, hx.symm⟩
      rw [height_append, height_close hoc, hB.height_eq_zero hoc]
      omega
    · cases y with
      | nil =>
        rw [← List.nil_append q, ← hy, height_close hoc, hB.height_eq_zero hoc]
        omega
      | cons a y =>
        obtain ⟨-, rfl⟩ := List.cons.inj hy
        exact hB.height_suffix hoc (List.suffix_append y q)
  | unclosed => exact hclosed.elim

/-- A bracket without a partner is in no balanced part of the word. -/
theorem WF.length_le_longest (hoc : o ≠ c) (ht : WF o c t) (hu : Balanced o c u)
    (h : u <:+: t.text o c) : u.length ≤ t.longest := by
  induction ht with
  | base hB => exact h.length_le
  | @unopened t B ht hclosed hB ih =>
    rcases infix_append_cons h with h | h | ⟨p, q, rfl, hp, hq⟩
    · exact Nat.le_trans (ih h) (Nat.le_max_left _ _)
    · exact Nat.le_trans h.length_le (Nat.le_max_right _ _)
    · have hpos := hu.height_prefix hoc (p := p ++ [c]) ⟨q, by simp⟩
      have hneg := ht.height_suffix hoc hclosed hp
      rw [height_append, height_close hoc, height_nil] at hpos
      omega
  | @unclosed t B ht hB ih =>
    rcases infix_append_cons h with h | h | ⟨p, q, rfl, hp, hq⟩
    · exact Nat.le_trans (ih h) (Nat.le_max_left _ _)
    · exact Nat.le_trans h.length_le (Nat.le_max_right _ _)
    · have hneg := hu.height_suffix hoc (List.suffix_append p (o :: q))
      have hpos := hB.height_prefix hoc hq
      rw [height_open hoc] at hneg
      omega

end Blocks

end CodeC.Library.Brackets
