import CodeC.Leetcode32
import CodeC.Library.Brackets
import Mathlib.Data.List.Induction
import Mathlib.Order.Bounds.Basic

/-!
# The runs of 1s are the balanced blocks

After every character the markers spell the blocks of what has been read: 1s for the blocks
themselves, and the brackets without a partner between them.
-/

namespace CodeC.Leetcode32
open Library.Brackets

/-- The markers of a chain of blocks -/
def markers : Blocks Char → List ℤ
  | .base B => List.replicate B.length 1
  | .unopened t B => markers t ++ -2 :: List.replicate B.length 1
  | .unclosed t B => markers t ++ -1 :: List.replicate B.length 1

variable {t : Blocks Char} {s : List Char}

lemma length_markers (t : Blocks Char) : (markers t).length = (t.text '(' ')').length := by
  induction t with
  | base B => simp [markers, Blocks.text]
  | unopened t B ih => simp [markers, Blocks.text, ih]
  | unclosed t B ih => simp [markers, Blocks.text, ih]

lemma markers_add (C : List Char) (t : Blocks Char) :
    markers (t.add C) = markers t ++ List.replicate C.length 1 := by
  cases t <;> simp [markers, Blocks.add]

/-- No -1 stands between. -/
lemma lastOpen_skip (u w z : List ℤ) (hw : ∀ x ∈ w, x ≠ -1) :
    lastOpen (u ++ (w ++ z)) (u.length + w.length) = lastOpen (u ++ (w ++ z)) u.length := by
  induction w using List.reverseRecOn generalizing z with
  | nil => rfl
  | append_singleton w x ih =>
    have hx : (u ++ (w ++ [x] ++ z)).getD (u.length + w.length) 0 = x := by
      simp
    rw [List.length_append, List.length_singleton, ← Nat.add_assoc, lastOpen, hx,
      if_neg (hw x (by simp)), List.append_assoc w [x] z]
    exact ih ([x] ++ z) fun y hy => hw y (by simp [hy])

lemma WF.markers_ne (ht : t.WF '(' ')') (hclosed : t.Closed) : ∀ x ∈ markers t, x ≠ -1 := by
  induction ht with
  | base hB =>
    intro x hx
    rw [List.eq_of_mem_replicate hx]
    decide
  | unopened ht hclosed' hB ih =>
    intro x hx
    rcases List.mem_append.mp hx with hx | hx
    · exact ih hclosed' x hx
    · rcases List.mem_cons.mp hx with rfl | hx
      · decide
      · rw [List.eq_of_mem_replicate hx]
        decide
  | unclosed => exact hclosed.elim

lemma lastOpen_closed (ht : t.WF '(' ')') (hclosed : t.Closed) (z : List ℤ) :
    lastOpen (markers t ++ z) (markers t).length = none := by
  have h := lastOpen_skip [] (markers t) z (WF.markers_ne ht hclosed)
  rwa [List.length_nil, Nat.zero_add] at h

lemma lastOpen_unclosed (t : Blocks Char) (B : List Char) (z : List ℤ) :
    lastOpen (markers (.unclosed t B) ++ z) (markers (.unclosed t B)).length =
      some (markers t).length := by
  have h := lastOpen_skip (markers t ++ [-1]) (List.replicate B.length 1) z fun x hx => by
    rw [List.eq_of_mem_replicate hx]
    decide
  have hget : (markers t ++ [-1] ++ (List.replicate B.length 1 ++ z)).getD (markers t).length 0 =
      -1 := by simp
  rw [List.length_append, List.length_singleton, lastOpen, if_pos hget] at h
  have hsplit : markers (.unclosed t B) ++ z =
      markers t ++ [-1] ++ (List.replicate B.length 1 ++ z) := by simp [markers]
  have hlen : (markers (.unclosed t B)).length =
      (markers t).length + 1 + (List.replicate B.length (1 : ℤ)).length := by
    rw [markers, List.length_append, List.length_cons]
    omega
  rw [hsplit, hlen, h]

/-- One character more. -/
lemma mark_markers (ht : t.WF '(' ')') {c : Char} (hc : c = '(' ∨ c = ')') (x : ℤ) (z : List ℤ) :
    ∃ t' : Blocks Char, t'.WF '(' ')' ∧ t'.text '(' ')' = t.text '(' ')' ++ [c] ∧
      mark (markers t ++ x :: z) (markers t).length c = markers t' ++ z := by
  rcases hc with rfl | rfl
  · refine ⟨.unclosed t [], .unclosed ht .nil, rfl, ?_⟩
    simp [mark, markers]
  · cases ht with
    | @unclosed t B ht hB =>
      -- the last `'('` has found its partner
      have hpair : Balanced '(' ')' ('(' :: (B ++ [')'])) := .wrap hB .nil
      refine ⟨t.add ('(' :: (B ++ [')'])), ht.add hpair, ?_, ?_⟩
      · rw [Blocks.text_add, Blocks.text]
        simp
      · have hones : List.replicate ('(' :: (B ++ [')'])).length (1 : ℤ) =
            1 :: (List.replicate B.length 1 ++ [1]) := by
          rw [List.length_cons, List.replicate_succ, List.length_append, List.length_singleton,
            List.replicate_succ']
        rw [mark, if_neg (by decide), lastOpen_unclosed, markers_add, hones]
        simp [markers]
    | @base B hB =>
      refine ⟨.unopened (.base B) [], .unopened (.base hB) trivial .nil, rfl, ?_⟩
      rw [mark, if_neg (by decide), lastOpen_closed (.base hB) trivial]
      simp [markers]
    | @unopened t B ht hclosed hB =>
      refine ⟨.unopened (.unopened t B) [], .unopened (.unopened ht hclosed hB) trivial .nil, rfl, ?_⟩
      rw [mark, if_neg (by decide), lastOpen_closed (.unopened ht hclosed hB) trivial]
      simp [markers]

lemma markAll_markers (ht : t.WF '(' ')') (hs : ∀ c ∈ s, c = '(' ∨ c = ')') :
    ∃ t' : Blocks Char, t'.WF '(' ')' ∧ t'.text '(' ')' = t.text '(' ')' ++ s ∧
      markAll (markers t ++ List.replicate (s.length + 1) 0) (markers t).length s =
        markers t' ++ [0] := by
  induction s generalizing t with
  | nil => exact ⟨t, ht, (List.append_nil _).symm, rfl⟩
  | cons c s ih =>
    obtain ⟨t₁, ht₁, htext₁, hmark⟩ :=
      mark_markers ht (hs c (by simp)) 0 (List.replicate (s.length + 1) 0)
    obtain ⟨t₂, ht₂, htext₂, hall⟩ := ih ht₁ fun d hd => hs d (by simp [hd])
    refine ⟨t₂, ht₂, by rw [htext₂, htext₁, List.append_assoc, List.singleton_append], ?_⟩
    have hlen : (markers t₁).length = (markers t).length + 1 := by
      rw [length_markers, htext₁, List.length_append, ← length_markers, List.length_singleton]
    rw [List.length_cons, List.replicate_succ, markAll, hmark, ← hlen, hall]

/-- The longest block before the last one -/
def below : Blocks Char → ℕ
  | .base _ => 0
  | .unopened t _ => t.longest
  | .unclosed t _ => t.longest

lemma max_below (t : Blocks Char) : max (below t) t.block.length = t.longest := by
  cases t <;> simp [below, Blocks.block, Blocks.longest]

lemma foldl_ones (r : Runs) (k : ℕ) :
    (List.replicate k (1 : ℤ)).foldl Runs.next r = ⟨r.max, r.cur + k⟩ := by
  induction k generalizing r with
  | zero => rfl
  | succ k ih =>
    rw [List.replicate_succ, List.foldl_cons, ih]
    simp only [Runs.next, if_true]
    congr 1
    omega

lemma next_of_ne (r : Runs) {x : ℤ} (hx : x ≠ 1) : r.next x = ⟨max r.max r.cur, 0⟩ := by
  rw [Runs.next, if_neg hx]
  congr 1
  split <;> omega

lemma foldl_markers (t : Blocks Char) :
    (markers t).foldl Runs.next ⟨0, 0⟩ = ⟨below t, t.block.length⟩ := by
  induction t with
  | base B => rw [markers, foldl_ones]; simp [below, Blocks.block]
  | unopened t B ih =>
    rw [markers, List.foldl_append, ih, List.foldl_cons, next_of_ne _ (by decide), foldl_ones,
      max_below, Nat.zero_add]
    rfl
  | unclosed t B ih =>
    rw [markers, List.foldl_append, ih, List.foldl_cons, next_of_ne _ (by decide), foldl_ones,
      max_below, Nat.zero_add]
    rfl

/-- The greatest length of a balanced substring. -/
theorem longestValidParentheses_isGreatest (s : List Char) (hs : ∀ c ∈ s, c = '(' ∨ c = ')') :
    IsGreatest {k | ∃ u, u <:+: s ∧ Balanced '(' ')' u ∧ u.length = k}
      (longestValidParentheses s) := by
  obtain ⟨t, ht, htext, hall⟩ := markAll_markers (t := .base []) (.base .nil) hs
  rw [Blocks.text, List.nil_append] at htext
  have hlongest : longestValidParentheses s = t.longest := by
    have hall' : markAll (List.replicate (s.length + 1) 0) 0 s = markers t ++ [0] := hall
    rw [longestValidParentheses, hall', List.foldl_append, foldl_markers, List.foldl_cons,
      List.foldl_nil, next_of_ne _ (by decide), max_below]
  rw [hlongest, ← htext]
  constructor
  · exact ht.exists_longest
  · rintro k ⟨u, hinfix, hu, rfl⟩
    exact ht.length_le_longest (by decide) hu hinfix

theorem longestValidParentheses_isGreatest_example :
    IsGreatest {k | ∃ u, u <:+: [')', '(', ')', '('] ∧ Balanced '(' ')' u ∧ u.length = k} 2 :=
  longestValidParentheses_isGreatest [')', '(', ')', '('] (by simp)

end CodeC.Leetcode32
