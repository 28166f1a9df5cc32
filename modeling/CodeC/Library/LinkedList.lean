import Mathlib.Data.List.Basic

/-!
# Linked lists in a store

A store gives every cell its link. A segment is the list of the cells from one link to another.
-/

namespace CodeC.Library

variable {Loc : Type} {next next' : Loc → Option Loc} {p q r : Option Loc} {ls ms : List Loc} {l : Loc}

/-- The cells from the link `p` up to the link `q` -/
def Seg (next : Loc → Option Loc) : Option Loc → List Loc → Option Loc → Prop
  | p, [], q => p = q
  | p, l :: ls, q => p = some l ∧ Seg next (next l) ls q

lemma Seg.append (hls : Seg next p ls q) (hms : Seg next q ms r) : Seg next p (ls ++ ms) r := by
  induction ls generalizing p with
  | nil =>
    obtain rfl : p = q := hls
    exact hms
  | cons l ls ih => exact ⟨hls.1, ih hls.2⟩

lemma Seg.concat (hls : Seg next p ls (some l)) : Seg next p (ls ++ [l]) (next l) :=
  hls.append ⟨rfl, rfl⟩

/-- Only the links of the cells matter. -/
lemma Seg.congr (h : Seg next p ls q) (heq : ∀ l ∈ ls, next' l = next l) : Seg next' p ls q := by
  induction ls generalizing p with
  | nil => exact h
  | cons l ls ih =>
    refine ⟨h.1, ?_⟩
    rw [heq l (by simp)]
    exact ih h.2 fun m hm => heq m (by simp [hm])

/-- A list that ends with the null link starts at its first cell. -/
lemma Seg.eq_head? (h : Seg next p ls none) : p = ls.head? := by
  cases ls with
  | nil => exact h
  | cons l ls => exact h.1

end CodeC.Library
