import CodeC.Leetcode37
import CodeC.Library.Backtrack
import Mathlib.Data.List.Nodup

/-!
# Blanks and their digits

The blanks of a board in the order of the rows, and the board with the first of them filled in.
-/

namespace CodeC.Leetcode37
open Library

/-- The cells in the order of the rows -/
def grid : List Pos := (List.range 81).map fun k => (k / 9, k % 9)

def index (p : Pos) : ℕ := p.1 * 9 + p.2

lemma mem_grid {p : Pos} : p ∈ grid ↔ p.1 < 9 ∧ p.2 < 9 := by
  rw [grid, List.mem_map]
  constructor
  · rintro ⟨k, hk, rfl⟩
    have := List.mem_range.mp hk
    exact ⟨by omega, by omega⟩
  · rintro ⟨hi, hj⟩
    refine ⟨index p, List.mem_range.mpr ?_, Prod.ext ?_ ?_⟩
    · rw [index]
      omega
    · rw [index]
      omega
    · rw [index]
      omega

/-- Two cells of a row, a column or a box -/
def Peer (p q : Pos) : Prop :=
  p ≠ q ∧ (p.1 = q.1 ∨ p.2 = q.2 ∨ p.1 / 3 = q.1 / 3 ∧ p.2 / 3 = q.2 / 3)

lemma Peer.symm {p q : Pos} (h : Peer p q) : Peer q p :=
  ⟨h.1.symm, h.2.imp Eq.symm (Or.imp Eq.symm fun h => ⟨h.1.symm, h.2.symm⟩)⟩

/-- Every cell holds a digit, and no digit stands twice in a row, a column or a box. -/
structure Valid (c : Board) : Prop where
  digit : ∀ p ∈ grid, one ≤ c p ∧ c p < colon
  peers : ∀ p ∈ grid, ∀ q ∈ grid, Peer p q → c p ≠ c q

/-- A valid board with the given digits of `b` -/
structure Completion (b c : Board) : Prop where
  valid : Valid c
  given : ∀ p ∈ grid, b p ≠ dot → c p = b p

variable {b : Board} {p q : Pos} {r : List ℕ}

lemma legal_iff {v : ℕ} (hp : p ∈ grid) :
    legal b p v = true ↔ ∀ q ∈ grid, Peer p q → b q ≠ v := by
  obtain ⟨hp1, hp2⟩ := mem_grid.mp hp
  simp only [legal, Bool.and_eq_true, List.all_eq_true, List.mem_range, List.mem_range'_1,
    Bool.not_eq_true', Bool.and_eq_false_iff, Bool.or_eq_false_iff, bne_eq_false_iff_eq,
    beq_eq_false_iff_ne]
  constructor
  · rintro ⟨⟨hrow, hcol⟩, hbox⟩ ⟨i, j⟩ hq ⟨hne, hpeer⟩
    obtain ⟨hi, hj⟩ := mem_grid.mp hq
    have hne' : ¬(p.1 = i ∧ p.2 = j) := fun h => hne (Prod.ext h.1 h.2)
    rcases hpeer with rfl | rfl | ⟨h1, h2⟩
    · exact (hrow j hj).resolve_left fun h => hne' ⟨rfl, h.symm⟩
    · exact (hcol i hi).resolve_left fun h => hne' ⟨h.symm, rfl⟩
    · simp only at h1 h2
      exact (hbox i (by omega) j (by omega)).resolve_left fun h => hne' ⟨h.1.symm, h.2.symm⟩
  · intro h
    refine ⟨⟨fun j hj => ?_, fun i hi => ?_⟩, fun i hi j hj => ?_⟩
    · by_cases hjp : j = p.2
      · exact .inl hjp
      · exact .inr (h (p.1, j) (mem_grid.mpr ⟨hp1, hj⟩)
          ⟨fun heq => hjp (congrArg Prod.snd heq).symm, .inl rfl⟩)
    · by_cases hip : i = p.1
      · exact .inl hip
      · exact .inr (h (i, p.2) (mem_grid.mpr ⟨hi, hp2⟩)
          ⟨fun heq => hip (congrArg Prod.fst heq).symm, .inr (.inl rfl)⟩)
    · by_cases hij : i = p.1 ∧ j = p.2
      · exact .inl hij
      · refine .inr (h (i, j) (mem_grid.mpr ⟨by omega, by omega⟩)
          ⟨fun heq => hij ⟨(congrArg Prod.fst heq).symm, (congrArg Prod.snd heq).symm⟩, ?_⟩)
        exact .inr (.inr ⟨by simp only; omega, by simp only; omega⟩)

/-- The cell itself is not looked at. -/
lemma legal_update (b : Board) (p : Pos) (x v : ℕ) (hp : p ∈ grid) :
    legal (Function.update b p x) p v = legal b p v := by
  rw [Bool.eq_iff_iff, legal_iff hp, legal_iff hp]
  refine forall₃_congr fun q _ hpeer => ?_
  rw [Function.update_of_ne hpeer.1.symm]

/-- The blanks in the order of the rows -/
def blanks (b : Board) : List Pos := grid.filter fun p => b p == dot

lemma mem_blanks : p ∈ blanks b ↔ p ∈ grid ∧ b p = dot := by
  rw [blanks, List.mem_filter, beq_iff_eq]

lemma grid_sorted : grid.Pairwise fun p q => index p < index q := by
  rw [grid, List.pairwise_map]
  refine List.pairwise_lt_range.imp fun h => ?_
  simp only [index]
  omega

lemma blanks_sorted (b : Board) : (blanks b).Pairwise fun p q => index p < index q :=
  grid_sorted.filter _

lemma blanks_nodup (b : Board) : (blanks b).Nodup :=
  (blanks_sorted b).imp fun h heq => absurd (heq ▸ h) (Nat.lt_irrefl _)

/-- `b` with the digits of `r`, counted from 0, in its first blanks -/
def fill (b : Board) (r : List ℕ) : Board := fun q =>
  if q ∈ blanks b then (r[(blanks b).idxOf q]?).elim dot (one + ·) else b q

lemma fill_of_notMem (r : List ℕ) (hq : q ∉ blanks b) : fill b r q = b q := if_neg hq

lemma fill_blank {i : ℕ} (r : List ℕ) (hi : i < (blanks b).length) :
    fill b r (blanks b)[i] = (r[i]?).elim dot (one + ·) := by
  rw [fill, if_pos (List.getElem_mem hi), (blanks_nodup b).idxOf_getElem]

lemma fill_nil (b : Board) : fill b [] = b := by
  funext q
  by_cases hq : q ∈ blanks b
  · rw [fill, if_pos hq, List.getElem?_nil]
    exact (mem_blanks.mp hq).2.symm
  · exact fill_of_notMem [] hq

/-- One more digit is written. -/
lemma update_fill (c : ℕ) (hr : r.length < (blanks b).length) :
    Function.update (fill b r) (blanks b)[r.length] (one + c) = fill b (r ++ [c]) := by
  funext q
  by_cases hq : q ∈ blanks b
  · obtain ⟨i, hi, rfl⟩ := List.getElem_of_mem hq
    rw [fill_blank _ hi]
    by_cases hir : i = r.length
    · subst hir
      rw [Function.update_self, List.getElem?_concat_length]
      rfl
    · have hne : (blanks b)[i] ≠ (blanks b)[r.length] :=
        fun heq => hir ((blanks_nodup b).getElem_inj_iff.mp heq)
      rw [Function.update_of_ne hne, fill_blank _ hi, List.getElem?_append]
      split
      · rfl
      · rw [List.getElem?_eq_none (by omega), List.getElem?_eq_none (by simp; omega)]
  · have hne : q ≠ (blanks b)[r.length] := by
      rintro rfl
      exact hq (List.getElem_mem hr)
    rw [Function.update_of_ne hne, fill_of_notMem _ hq, fill_of_notMem _ hq]

/-- The digit is taken back. -/
lemma update_fill_dot (x : ℕ) (hr : r.length < (blanks b).length) :
    Function.update (Function.update (fill b r) (blanks b)[r.length] x) (blanks b)[r.length] dot =
      fill b r := by
  have hdot : fill b r (blanks b)[r.length] = dot := by
    rw [fill_blank _ hr, List.getElem?_eq_none (Nat.le_refl _)]
    rfl
  rw [Function.update_idem, ← hdot, Function.update_eq_self]

lemma filter_idxOf_eq_drop {α : Type} [BEq α] [LawfulBEq α] {l : List α} (hl : l.Nodup) (k : ℕ) :
    (l.filter fun a => decide (k ≤ l.idxOf a)) = l.drop k := by
  have hsplit : (l.filter fun a => decide (k ≤ l.idxOf a)) =
      (l.take k ++ l.drop k).filter fun a => decide (k ≤ l.idxOf a) := by
    rw [List.take_append_drop]
  rw [hsplit, List.filter_append, List.filter_eq_nil_iff.mpr, List.filter_eq_self.mpr,
    List.nil_append]
  · intro a ha
    obtain ⟨i, hi, rfl⟩ := List.mem_drop_iff_getElem.mp ha
    rw [hl.idxOf_getElem, decide_eq_true_iff]
    omega
  · intro a ha
    obtain ⟨i, hi, rfl⟩ := List.mem_take_iff_getElem.mp ha
    rw [hl.idxOf_getElem, decide_eq_true_iff]
    omega

lemma blanks_fill (b : Board) (r : List ℕ) : blanks (fill b r) = (blanks b).drop r.length := by
  rw [← filter_idxOf_eq_drop (blanks_nodup b)]
  rw [show blanks (fill b r) = grid.filter fun q => fill b r q == dot from rfl]
  conv_rhs => arg 2; rw [blanks]
  rw [List.filter_filter]
  apply List.filter_congr
  intro q hq
  by_cases hblank : q ∈ blanks b
  · rw [fill, if_pos hblank, (mem_blanks.mp hblank).2, beq_self_eq_true, Bool.and_true]
    cases hget : r[(blanks b).idxOf q]? with
    | none =>
      have hle := List.getElem?_eq_none_iff.mp hget
      simp [hle]
    | some a =>
      have hlt := (List.getElem?_eq_some_iff.mp hget).1
      have hne : one + a ≠ dot := by
        simp only [one, dot]
        omega
      rw [Option.elim_some, beq_eq_false_iff_ne.mpr hne, decide_eq_false (by omega)]
  · have hne : b q ≠ dot := fun h => hblank (mem_blanks.mpr ⟨hq, h⟩)
    rw [fill_of_notMem r hblank]
    simp [hne]

/-- The blanks before the position have been filled in. -/
lemma find_drop_index {i : ℕ} (h : ∀ q ∈ blanks b, i ≤ index q) :
    (grid.drop i).find? (fun q => b q == dot) = (blanks b).head? := by
  rw [blanks, List.head?_filter]
  conv_rhs => rw [← List.take_append_drop i grid]
  have hbefore : (grid.take i).find? (fun q => b q == dot) = none := by
    rw [List.find?_eq_none]
    intro q hq
    obtain ⟨k, hk, rfl⟩ := List.mem_take_iff_getElem.mp hq
    rw [Nat.lt_min] at hk
    intro hdot
    have hle := h _ (mem_blanks.mpr ⟨List.getElem_mem hk.2, by simpa using hdot⟩)
    simp only [grid, List.getElem_map, List.getElem_range, index] at hle
    omega
  rw [List.find?_append, hbefore, Option.none_or]

lemma nextpos_eq_head? (h : ∀ q ∈ blanks b, index p ≤ index q) :
    nextpos b p = (blanks b).head? := by
  have hdrop : (List.range 81).drop (index p) = List.range' (index p) (81 - index p) := by
    rw [List.range_eq_range', List.drop_range', Nat.zero_add, Nat.mul_one]
  rw [← find_drop_index h, grid, ← List.map_drop, List.find?_map, hdrop]
  rfl

namespace V2

/-- The cells of the rows from column `y` of the first one on -/
def cellsFrom : List ℕ → ℕ → List Pos
  | [], _ => []
  | i :: rows, y => (List.range' y (9 - y)).map (i, ·) ++ cellsFrom rows 0

lemma nextposRows_eq (b : Board) (rows : List ℕ) (y : ℕ) :
    nextposRows b rows y = (cellsFrom rows y).find? fun q => b q == dot := by
  induction rows generalizing y with
  | nil => rfl
  | cons i rows ih =>
    rw [nextposRows, cellsFrom, List.find?_append, List.find?_map, ih]
    simp only [Function.comp_def]
    cases (List.range' y (9 - y)).find? fun j => b (i, j) == dot <;> rfl

lemma cellsFrom_range' : ∀ x < 9, ∀ y < 9,
    cellsFrom (List.range' x (9 - x)) y = grid.drop (x * 9 + y) := by
  decide +kernel

lemma nextpos_eq_head? (hp : p ∈ grid) (h : ∀ q ∈ blanks b, index p ≤ index q) :
    nextpos b p = (blanks b).head? := by
  obtain ⟨hx, hy⟩ := mem_grid.mp hp
  rw [← find_drop_index h, nextpos, nextposRows_eq, cellsFrom_range' _ hx _ hy]
  rfl

end V2

end CodeC.Leetcode37
