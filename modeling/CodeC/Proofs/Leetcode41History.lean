import CodeC.Leetcode41
import CodeC.Library.Vector
import Mathlib.Data.List.Induction
import Mathlib.Data.List.Nodup
import Mathlib.Data.List.Perm.Subperm

/-!
# What earlier calls of `firstMissingPositive` change

A mark that an earlier call has set stays as long as no call resizes the vector below it. The least
missing number is passed over when it carries such a mark.
-/

namespace CodeC.Leetcode41

/-- `m` is the least positive integer that does not occur in `nums`. -/
structure LeastMissing (nums : List ℤ) (m : ℕ) : Prop where
  pos : 0 < m
  missing : (m : ℤ) ∉ nums
  least : ∀ k : ℕ, 0 < k → k < m → (k : ℤ) ∈ nums

/-- An earlier call has marked `m`, and no call since then has removed the mark. -/
def Stale (calls : List (List ℤ)) (nums : List ℤ) (m : ℕ) : Prop :=
  ∃ pre old post, calls = pre ++ old :: post ∧ (m : ℤ) ∈ old ∧
    ∀ l ∈ old :: post ++ [nums], m ≤ l.length

variable {v : List Bool} {nums : List ℤ} {calls : List (List ℤ)} {m k : ℕ}

lemma LeastMissing.unique (h : LeastMissing nums m) (h' : LeastMissing nums k) : m = k := by
  rcases Nat.lt_trichotomy m k with hlt | heq | hlt
  · exact absurd (h'.least m h.pos hlt) h.missing
  · exact heq
  · exact absurd (h.least k h'.pos hlt) h'.missing

/-- A list does not hold more different numbers than it is long. -/
lemma le_length_of_forall_mem (h : ∀ k : ℕ, 0 < k → k < m → (k : ℤ) ∈ nums) :
    m ≤ nums.length + 1 := by
  have hsub : (List.range' 1 (m - 1)).map (fun k : ℕ => (k : ℤ)) ⊆ nums := by
    intro x hx
    obtain ⟨k, hk, rfl⟩ := List.mem_map.mp hx
    rw [List.mem_range'_1] at hk
    exact h k (by omega) (by omega)
  have hrange : (List.range' 1 (m - 1)).Nodup := List.nodup_range'
  have hnodup : ((List.range' 1 (m - 1)).map (fun k : ℕ => (k : ℤ))).Nodup :=
    hrange.map fun _ _ h => Int.ofNat_inj.mp h
  have hlen := (List.subperm_of_subset hnodup hsub).length_le
  rw [List.length_map, List.length_range'] at hlen
  omega

lemma exists_leastMissing (nums : List ℤ) : ∃ m, LeastMissing nums m := by
  by_contra hno
  -- every positive number occurs
  have hall : ∀ m : ℕ, ∀ k : ℕ, 0 < k → k < m → (k : ℤ) ∈ nums := by
    intro m
    induction m with
    | zero =>
      intro k _ hk
      cases hk
    | succ m ih =>
      intro k hpos hk
      by_contra hmissing
      obtain rfl : k = m := by
        by_contra hne
        exact hmissing (ih k hpos (by omega))
      exact hno ⟨k, hpos, hmissing, ih⟩
  have hle := le_length_of_forall_mem (hall (nums.length + 2))
  omega

lemma length_resize (v : List Bool) (n : ℕ) : (resize v n).length = n :=
  Library.length_take_append_replicate v n false

lemma getD_eq_true_iff : v.getD m false = true ↔ v[m]? = some true := by
  rw [List.getD_eq_getElem?_getD]
  cases v[m]? with
  | none => simp
  | some b => simp

lemma getD_resize (v : List Bool) (n m : ℕ) :
    (resize v n).getD m false = true ↔ m < n ∧ v.getD m false = true := by
  rw [resize, Library.getD_take_append_replicate]
  by_cases hm : m < n
  · rw [if_pos hm, and_iff_right hm]
  · rw [if_neg hm]
    exact iff_of_false Bool.false_ne_true fun h => hm h.1

lemma length_mark (v : List Bool) (nums : List ℤ) : (mark v nums).length = v.length := by
  induction nums generalizing v with
  | nil => rfl
  | cons n nums ih =>
    rw [mark, List.foldl_cons]
    refine (ih _).trans ?_
    split
    · exact List.length_set
    · rfl

lemma getD_mark (v : List Bool) (nums : List ℤ) (m : ℕ) :
    (mark v nums).getD m false = true ↔
      v.getD m false = true ∨ 0 < m ∧ m < v.length ∧ (m : ℤ) ∈ nums := by
  induction nums generalizing v with
  | nil => simp [mark]
  | cons n nums ih =>
    rw [mark, List.foldl_cons, ← mark, ih, List.mem_cons]
    split
    · rename_i hn
      have hset : (v.set n.toNat true).getD m false = true ↔
          v.getD m false = true ∨ (m : ℤ) = n := by
        rw [getD_eq_true_iff, getD_eq_true_iff, List.getElem?_set]
        split
        · rename_i heq
          rw [if_pos (by omega)]
          exact iff_of_true rfl (.inr (by omega))
        · rename_i hne
          exact (or_iff_left (by omega)).symm
      rw [hset, List.length_set]
      constructor
      · rintro ((h | h) | h)
        · exact .inl h
        · exact .inr ⟨by omega, by omega, .inl h⟩
        · exact .inr ⟨h.1, h.2.1, .inr h.2.2⟩
      · rintro (h | ⟨hpos, hlt, h | h⟩)
        · exact .inl (.inl h)
        · exact .inl (.inr h)
        · exact .inr ⟨hpos, hlt, h⟩
    · rename_i hn
      refine or_congr_right (and_congr_right fun hpos => and_congr_right fun hlt => ?_)
      exact (or_iff_right (by omega)).symm

/-- The marks after a call -/
lemma marked_iff (v : List Bool) (nums : List ℤ) (m : ℕ) :
    (firstMissingPositive v nums).2.getD m false = true ↔
      m ≤ nums.length ∧ (v.getD m false = true ∨ 0 < m ∧ (m : ℤ) ∈ nums) := by
  have hstate : (firstMissingPositive v nums).2 = mark (resize v (nums.length + 1)) nums := by
    unfold firstMissingPositive
    dsimp only
    split <;> rfl
  rw [hstate, getD_mark, getD_resize, length_resize]
  constructor
  · rintro (⟨hm, h⟩ | ⟨hpos, hm, h⟩)
    · exact ⟨by omega, .inl h⟩
    · exact ⟨by omega, .inr ⟨hpos, h⟩⟩
  · rintro ⟨hm, h | ⟨hpos, h⟩⟩
    · exact .inl ⟨by omega, h⟩
    · exact .inr ⟨hpos, by omega, h⟩

/-- The result is the first unmarked position of the vector, or its size. -/
lemma result_spec (v : List Bool) (nums : List ℤ) :
    0 < (firstMissingPositive v nums).1 ∧ (firstMissingPositive v nums).1 ≤ nums.length + 1 ∧
      (firstMissingPositive v nums).2.getD (firstMissingPositive v nums).1 false ≠ true ∧
      ∀ k, 0 < k → k < (firstMissingPositive v nums).1 →
        (firstMissingPositive v nums).2.getD k false = true := by
  have hlen : (mark (resize v (nums.length + 1)) nums).length = nums.length + 1 := by
    rw [length_mark, length_resize]
  unfold firstMissingPositive
  dsimp only
  generalize mark (resize v (nums.length + 1)) nums = w at hlen
  split
  · rename_i i hfind
    rw [List.find?_range'_eq_some, List.mem_range'_1] at hfind
    obtain ⟨hi, hmem, hfirst⟩ := hfind
    refine ⟨by omega, by omega, by simpa using hi, fun k hpos hk => ?_⟩
    simpa using hfirst k hpos hk
  · rename_i hfind
    rw [List.find?_eq_none] at hfind
    refine ⟨by omega, by omega, ?_, fun k hpos hk => ?_⟩
    · rw [List.getD_eq_getElem?_getD, List.getElem?_eq_none (Nat.le_refl _)]
      simp
    · simpa using hfind k (by rw [List.mem_range'_1]; omega)

/-- A call is right when the least missing number carries no mark within the vector. -/
lemma leastMissing_result_iff (h : LeastMissing nums m) :
    LeastMissing nums (firstMissingPositive v nums).1 ↔
      ¬(m ≤ nums.length ∧ v.getD m false = true) := by
  obtain ⟨hpos, hle, hfree, hmarked⟩ := result_spec v nums
  have hm := le_length_of_forall_mem h.least
  have hmark : (firstMissingPositive v nums).2.getD m false = true ↔
      m ≤ nums.length ∧ v.getD m false = true := by
    rw [marked_iff, iff_false_intro h.missing, and_false, or_false]
  constructor
  · intro hresult
    rw [← hmark, h.unique hresult]
    exact hfree
  · intro hno
    have hge : m ≤ (firstMissingPositive v nums).1 := by
      by_contra hlt
      refine hfree ((marked_iff v nums _).mpr ⟨by omega, .inr ⟨hpos, ?_⟩⟩)
      exact h.least _ hpos (by omega)
    have hle : (firstMissingPositive v nums).1 ≤ m := by
      by_contra hlt
      exact hno (hmark.mp (hmarked m h.pos (by omega)))
    rwa [Nat.le_antisymm hle hge]

lemma after_append (calls : List (List ℤ)) (nums : List ℤ) :
    after (calls ++ [nums]) = (firstMissingPositive (after calls) nums).2 := by
  rw [after, List.foldl_append]
  rfl

/-- The marks that some calls have left -/
lemma after_getD_iff (hm : 0 < m) : (after calls).getD m false = true ↔
    ∃ pre old post, calls = pre ++ old :: post ∧ (m : ℤ) ∈ old ∧
      ∀ l ∈ old :: post, m ≤ l.length := by
  induction calls using List.reverseRecOn with
  | nil => simp [after]
  | append_singleton calls nums ih =>
    rw [after_append, marked_iff, ih]
    constructor
    · rintro ⟨hlen, ⟨pre, old, post, rfl, hold, hall⟩ | ⟨-, hnums⟩⟩
      · refine ⟨pre, old, post ++ [nums], by simp, hold, fun l hl => ?_⟩
        rw [← List.cons_append, List.mem_append, List.mem_singleton] at hl
        rcases hl with hl | rfl
        · exact hall l hl
        · exact hlen
      · exact ⟨calls, nums, [], rfl, hnums, by simpa using hlen⟩
    · rintro ⟨pre, old, post, heq, hold, hall⟩
      -- the last of the calls is the marking one or comes after it
      rcases List.eq_nil_or_concat post with rfl | ⟨post, last, rfl⟩
      · obtain ⟨rfl, hlast⟩ := List.append_inj' heq rfl
        obtain rfl := List.singleton_inj.mp hlast
        exact ⟨hall _ (by simp), .inr ⟨hm, hold⟩⟩
      · have heq' : calls ++ [nums] = (pre ++ old :: post) ++ [last] := by
          rw [heq]
          simp
        obtain ⟨rfl, hlast⟩ := List.append_inj' heq' rfl
        obtain rfl := List.singleton_inj.mp hlast
        refine ⟨hall nums (by simp), .inl ⟨pre, old, post, rfl, hold, fun l hl => hall l ?_⟩⟩
        rw [List.concat_eq_append, ← List.cons_append]
        exact List.mem_append_left _ hl

/-- A call after some others returns the least missing number exactly when no mark for it is left. -/
lemma call_right_iff (calls : List (List ℤ)) (nums : List ℤ) :
    LeastMissing nums (firstMissingPositive (after calls) nums).1 ↔
      ∀ m, LeastMissing nums m → ¬Stale calls nums m := by
  have hstale : ∀ m, 0 < m →
      (Stale calls nums m ↔ m ≤ nums.length ∧ (after calls).getD m false = true) := by
    intro m hm
    rw [after_getD_iff hm]
    constructor
    · rintro ⟨pre, old, post, heq, hold, hall⟩
      exact ⟨hall nums (by simp), pre, old, post, heq, hold,
        fun l hl => hall l (List.mem_append_left _ hl)⟩
    · rintro ⟨hlen, pre, old, post, heq, hold, hall⟩
      refine ⟨pre, old, post, heq, hold, fun l hl => ?_⟩
      rcases List.mem_append.mp hl with hl | hl
      · exact hall l hl
      · rwa [List.mem_singleton.mp hl]
  constructor
  · intro hright m hm
    rw [hstale m hm.pos]
    exact (leastMissing_result_iff hm).mp hright
  · intro hno
    obtain ⟨m, hm⟩ := exists_leastMissing nums
    apply (leastMissing_result_iff hm).mpr
    rw [← hstale m hm.pos]
    exact hno m hm

end CodeC.Leetcode41
