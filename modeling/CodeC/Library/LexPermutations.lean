import Mathlib.Data.List.Lex
import Mathlib.Data.List.Perm.Basic
import Mathlib.Data.Nat.Factorial.Basic
import Mathlib.Order.Lattice

/-!
# The permutations of a list in lexicographic order

The permutations of a strictly increasing list, first by their first element and then by the rest.
The number of a permutation in this order is, in the factorial base, the sequence of the positions
from which its elements are taken.
-/

namespace CodeC.Library

variable {α : Type}

/-- Every element with the rest of the list -/
def picks : List α → List (α × List α)
  | [] => []
  | a :: l => (a, l) :: (picks l).map fun p => (p.1, a :: p.2)

/-- The permutations of a list of length `n` -/
def lexPerms : ℕ → List α → List (List α)
  | 0, _ => [[]]
  | n + 1, v => (picks v).flatMap fun p => (lexPerms n p.2).map (p.1 :: ·)

variable {v : List α} {n : ℕ}

lemma length_picks (v : List α) : (picks v).length = v.length := by
  induction v with
  | nil => rfl
  | cons a v ih => rw [picks, List.length_cons, List.length_map, ih, List.length_cons]

lemma getElem?_picks (v : List α) (i : ℕ) :
    (picks v)[i]? = v[i]?.map fun a => (a, v.eraseIdx i) := by
  induction v generalizing i with
  | nil => rfl
  | cons b v ih =>
    cases i with
    | zero => rfl
    | succ i =>
      rw [picks, List.getElem?_cons_succ, List.getElem?_map, ih, List.getElem?_cons_succ]
      cases v[i]? <;> rfl

lemma perm_of_mem_picks {p : α × List α} (h : p ∈ picks v) : (p.1 :: p.2).Perm v := by
  induction v generalizing p with
  | nil => cases h
  | cons a v ih =>
    rcases List.mem_cons.mp h with rfl | h
    · exact List.Perm.refl _
    · obtain ⟨q, hq, rfl⟩ := List.mem_map.mp h
      exact (List.Perm.swap a q.1 q.2).trans ((ih hq).cons a)

lemma exists_mem_picks {a : α} (h : a ∈ v) : ∃ l, (a, l) ∈ picks v := by
  obtain ⟨i, hi, rfl⟩ := List.getElem_of_mem h
  refine ⟨v.eraseIdx i, List.mem_of_getElem? (i := i) ?_⟩
  rw [getElem?_picks, List.getElem?_eq_getElem hi]
  rfl

lemma length_flatMap_of_forall {β γ : Type} {l : List β} {f : β → List γ} {c : ℕ}
    (h : ∀ x ∈ l, (f x).length = c) : (l.flatMap f).length = l.length * c := by
  induction l with
  | nil => simp
  | cons x l ih =>
    rw [List.flatMap_cons, List.length_append, h x (by simp), ih fun y hy => h y (by simp [hy]),
      List.length_cons, Nat.succ_mul, Nat.add_comm]

/-- The element number `i * c + r` of a concatenation of lists of length `c` -/
lemma getElem?_flatMap_of_forall {β γ : Type} {l : List β} {f : β → List γ} {c r : ℕ}
    (h : ∀ x ∈ l, (f x).length = c) (hr : r < c) (i : ℕ) :
    (l.flatMap f)[i * c + r]? = l[i]?.bind fun x => (f x)[r]? := by
  induction l generalizing i with
  | nil => rfl
  | cons x l ih =>
    have hx := h x (by simp)
    rw [List.flatMap_cons]
    cases i with
    | zero =>
      rw [Nat.zero_mul, Nat.zero_add, List.getElem?_append_left (by omega)]
      rfl
    | succ i =>
      have hsub : (i + 1) * c + r - (f x).length = i * c + r := by
        rw [hx, Nat.succ_mul]
        omega
      rw [List.getElem?_append_right (by rw [hx, Nat.succ_mul]; omega), hsub,
        ih (fun y hy => h y (by simp [hy])), List.getElem?_cons_succ]

lemma length_of_mem_picks {p : α × List α} (h : p ∈ picks v) (hv : v.length = n + 1) :
    p.2.length = n := by
  have hlen := (perm_of_mem_picks h).length_eq
  rw [List.length_cons] at hlen
  omega

theorem length_lexPerms (hv : v.length = n) : (lexPerms n v).length = n.factorial := by
  induction n generalizing v with
  | zero => rfl
  | succ n ih =>
    rw [lexPerms, length_flatMap_of_forall (c := n.factorial), length_picks, hv, Nat.factorial_succ]
    intro p hp
    rw [List.length_map, ih (length_of_mem_picks hp hv)]

theorem mem_lexPerms (hv : v.length = n) (q : List α) : q ∈ lexPerms n v ↔ q.Perm v := by
  induction n generalizing v q with
  | zero =>
    obtain rfl := List.eq_nil_of_length_eq_zero hv
    rw [lexPerms, List.mem_singleton, List.perm_nil]
  | succ n ih =>
    rw [lexPerms, List.mem_flatMap]
    constructor
    · rintro ⟨p, hp, hq⟩
      obtain ⟨r, hr, rfl⟩ := List.mem_map.mp hq
      have hperm := (ih (length_of_mem_picks hp hv) r).mp hr
      exact (hperm.cons p.1).trans (perm_of_mem_picks hp)
    · intro hperm
      cases q with
      | nil =>
        have := hperm.length_eq
        rw [hv] at this
        cases this
      | cons a r =>
        obtain ⟨l, hl⟩ := exists_mem_picks (hperm.mem_iff.mp (List.mem_cons_self))
        have hrest : r.Perm l := (hperm.trans (perm_of_mem_picks hl).symm).cons_inv
        exact ⟨(a, l), hl, List.mem_map.mpr
          ⟨r, (ih (length_of_mem_picks hl hv) r).mpr hrest, rfl⟩⟩

/-- The first digit of the number in the factorial base is the position of the first element. -/
theorem getElem?_lexPerms {i r : ℕ} {a : α} (hv : v.length = n + 1) (hi : v[i]? = some a)
    (hr : r < n.factorial) :
    (lexPerms (n + 1) v)[i * n.factorial + r]? = (lexPerms n (v.eraseIdx i))[r]?.map (a :: ·) := by
  rw [lexPerms, getElem?_flatMap_of_forall _ hr, getElem?_picks, hi]
  · exact List.getElem?_map
  · intro p hp
    rw [List.length_map, length_lexPerms (length_of_mem_picks hp hv)]

section order

variable [LinearOrder α]

lemma picks_sorted (hv : v.Pairwise (· < ·)) :
    (picks v).Pairwise (fun p q => p.1 < q.1) ∧ ∀ p ∈ picks v, p.2.Pairwise (· < ·) := by
  induction v with
  | nil => exact ⟨List.Pairwise.nil, fun p hp => by cases hp⟩
  | cons a v ih =>
    obtain ⟨ha, hv⟩ := List.pairwise_cons.mp hv
    obtain ⟨hfirst, hrest⟩ := ih hv
    have hmem : ∀ p ∈ picks v, ∀ b ∈ p.1 :: p.2, a < b :=
      fun p hp b hb => ha b ((perm_of_mem_picks hp).mem_iff.mp hb)
    constructor
    · rw [picks, List.pairwise_cons, List.pairwise_map]
      refine ⟨fun p hp => ?_, hfirst⟩
      obtain ⟨q, hq, rfl⟩ := List.mem_map.mp hp
      exact hmem q hq q.1 (by simp)
    · intro p hp
      rcases List.mem_cons.mp hp with rfl | hp
      · exact hv
      · obtain ⟨q, hq, rfl⟩ := List.mem_map.mp hp
        exact List.pairwise_cons.mpr ⟨fun b hb => hmem q hq b (by simp [hb]), hrest q hq⟩

theorem lexPerms_sorted (hv : v.Pairwise (· < ·)) (n : ℕ) : (lexPerms n v).Pairwise (· < ·) := by
  induction n generalizing v with
  | zero => exact List.pairwise_singleton _ _
  | succ n ih =>
    obtain ⟨hfirst, hrest⟩ := picks_sorted hv
    rw [lexPerms, List.pairwise_flatMap]
    constructor
    · intro p hp
      rw [List.pairwise_map]
      exact (ih (hrest p hp)).imp fun h => List.cons_lt_cons_iff.mpr (.inr ⟨rfl, h⟩)
    · refine hfirst.imp fun {p q} hpq x hx y hy => ?_
      obtain ⟨x, -, rfl⟩ := List.mem_map.mp hx
      obtain ⟨y, -, rfl⟩ := List.mem_map.mp hy
      exact List.cons_lt_cons_iff.mpr (.inl hpq)

end order

end CodeC.Library
