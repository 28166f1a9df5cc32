import CodeC.Leetcode51
import CodeC.Library.Digits

/-!
# The n queens solvers find all placements

A vector of columns is a number in base `n`. `51-2.cpp` goes up to the next number after a vector
that is complete or not legal, and it passes over all vectors with the same illegal beginning.
-/

namespace CodeC.Leetcode51
open Library

/-- No queen stands in the column or on a diagonal of another one. -/
def NonAttacking (v : List ℕ) : Prop :=
  ∀ i j a b : ℕ, j < i → v[i]? = some a → v[j]? = some b → a ≠ b ∧ a + j ≠ b + i ∧ a + i ≠ b + j

/-- The columns of `n` queens that do not attack each other, row by row. -/
structure Placement (n : ℕ) (v : List ℕ) : Prop where
  digits : Digits n n v
  nonAttacking : NonAttacking v

/-- The board with a queen in these columns. -/
def board (n : ℕ) (v : List ℕ) : Board := v.map fun c => (List.replicate n '.').set c 'Q'

def cols (v : List ℕ) : List ℤ := v.map fun a : ℕ => (a : ℤ)

section rows

variable {v r : List ℕ} {i : ℕ}

lemma NonAttacking.of_prefix (h : NonAttacking v) (hr : r <+: v) : NonAttacking r := by
  intro i j a b hji ha hb
  have hget : ∀ k c : ℕ, r[k]? = some c → v[k]? = some c := by
    intro k c hk
    obtain ⟨t, rfl⟩ := hr
    rw [List.getElem?_append_left (List.getElem?_eq_some_iff.mp hk).1]
    exact hk
  exact h i j a b hji (hget i a ha) (hget j b hb)

lemma getD_cols (v : List ℕ) {a : ℕ} (ha : v[i]? = some a) : (cols v).getD i 0 = a := by
  rw [List.getD_eq_getElem?_getD, cols, List.getElem?_map, ha]
  rfl

lemma attacked_cols (hi : i < v.length) :
    attacked (cols v) i = true ↔
      ∃ j b, j < i ∧ v[j]? = some b ∧ (v[i] = b ∨ v[i] + j = b + i ∨ v[i] + i = b + j) := by
  have hi' := getD_cols v (List.getElem?_eq_getElem hi)
  rw [attacked, List.any_eq_true]
  constructor
  · rintro ⟨j, hj, htest⟩
    have hji := List.mem_range.mp hj
    have hb : v[j]? = some v[j] := List.getElem?_eq_getElem (by omega)
    rw [hi', getD_cols v hb] at htest
    simp only [Bool.or_eq_true, beq_iff_eq] at htest
    refine ⟨j, v[j], hji, hb, ?_⟩
    omega
  · rintro ⟨j, b, hji, hb, htest⟩
    refine ⟨j, List.mem_range.mpr hji, ?_⟩
    rw [hi', getD_cols v hb]
    simp only [Bool.or_eq_true, beq_iff_eq]
    omega

lemma length_cols (v : List ℕ) : (cols v).length = v.length := List.length_map _

lemma firstIllegal_eq_none (h : firstIllegal (cols v) = none) : NonAttacking v := by
  intro i j a b hji ha hb
  obtain ⟨hi, rfl⟩ := List.getElem?_eq_some_iff.mp ha
  have hnot := List.find?_eq_none.mp h i (List.mem_range.mpr (by rwa [length_cols]))
  rw [attacked_cols hi] at hnot
  push Not at hnot
  exact hnot j b hji hb

/-- The rows above the first illegal one are legal, and with it they are not. -/
lemma firstIllegal_eq_some (h : firstIllegal (cols v) = some i) :
    i < v.length ∧ NonAttacking (v.take i) ∧ ¬NonAttacking (v.take (i + 1)) := by
  obtain ⟨hattacked, hmem, hfirst⟩ := List.find?_range_eq_some.mp h
  have hi : i < v.length := by simpa [length_cols] using hmem
  refine ⟨hi, ?_, ?_⟩
  · intro k j a b hjk ha hb
    rw [List.getElem?_take] at ha hb
    have hki : k < i := by
      by_contra hki
      simp [hki] at ha
    rw [if_pos hki] at ha
    rw [if_pos (by omega)] at hb
    obtain ⟨hk, rfl⟩ := List.getElem?_eq_some_iff.mp ha
    have hnot := hfirst k hki
    rw [Bool.not_eq_true', ← Bool.not_eq_true, attacked_cols hk] at hnot
    push Not at hnot
    exact hnot j b hjk hb
  · intro hlegal
    obtain ⟨j, b, hji, hb, htest⟩ := (attacked_cols hi).mp hattacked
    have hrow : (v.take (i + 1))[i]? = some v[i] := by
      rw [List.getElem?_take_of_lt (Nat.lt_succ_self i), List.getElem?_eq_getElem hi]
    have hcol : (v.take (i + 1))[j]? = some b := by
      rw [List.getElem?_take_of_lt (by omega), hb]
    have hfree := hlegal i j v[i] b hji hrow hcol
    omega

end rows

lemma cols_concat (v : List ℕ) (a : ℕ) : cols (v ++ [a]) = cols v ++ [(a : ℤ)] := by
  simp [cols]

lemma placement_digits (n : ℕ) : ∀ v, Placement n v → Digits n n v := fun _ h => h.digits

/-- An illegal beginning: the next solution lies behind all vectors that begin so. -/
lemma Placement.low_add_le {n : ℕ} {v r : List ℕ} (hv : Placement n v) (hr : ∀ a ∈ r, a < n)
    (hlen : r.length ≤ n) (hillegal : ¬NonAttacking r) (hlow : low n n r ≤ value n v) :
    low n n r + n ^ (n - r.length) ≤ value n v := by
  by_contra hlt
  have hpre := (prefix_iff_low hv.digits hr hlen).mpr ⟨hlow, by omega⟩
  exact hillegal (hv.nonAttacking.of_prefix hpre)

namespace V2

variable {n : ℕ} {q : List ℕ}

lemma next_concat (n : ℕ) (r : List ℤ) (a : ℤ) :
    next n (r ++ [a]) =
      if a < (n : ℤ) - 1 then some (r ++ [a + 1]) else (next n r).map (· ++ [0]) := by
  rw [next, List.reverse_append, List.reverse_singleton, List.singleton_append, nextLoop]
  split
  · simp
  · rw [next, Option.map_map, Option.map_map]
    congr 1
    funext r
    simp

/-- What `next` does to a vector of columns. -/
inductive Next (n : ℕ) (q : List ℕ) : Option (List ℤ) → Prop
  | last (hlast : value n q + 1 = n ^ q.length) : Next n q none
  | up (q' : List ℕ) (hlt : ∀ a ∈ q', a < n) (hlen : q'.length = q.length)
      (hvalue : value n q' = value n q + 1) : Next n q (some (cols q'))

lemma next_cols (hq : ∀ a ∈ q, a < n) : Next n q (next n (cols q)) := by
  induction q using List.reverseRecOn with
  | nil => exact .last (by simp [value])
  | append_singleton q a ih =>
    have ha : a < n := hq a (by simp)
    have hq' : ∀ b ∈ q, b < n := fun b hb => hq b (by simp [hb])
    rw [cols_concat, next_concat]
    by_cases hup : a + 1 < n
    · rw [if_pos (by omega)]
      have hcols : cols (q ++ [a + 1]) = cols q ++ [(a : ℤ) + 1] := by
        rw [cols_concat]
        rfl
      rw [← hcols]
      refine .up _ (concat_lt hq' hup) (by simp) ?_
      rw [value_concat, value_concat, Nat.add_assoc]
    · -- the last column goes back to 0, and the rest goes up
      rw [if_neg (by omega)]
      have hvalue : value n (q ++ [a]) + 1 = (value n q + 1) * n := by
        rw [value_concat, Nat.add_mul]
        omega
      have hrest := ih hq'
      generalize next n (cols q) = rest at hrest ⊢
      cases hrest with
      | last hlast =>
        refine .last ?_
        rw [hvalue, hlast, List.length_append, List.length_singleton, pow_succ]
      | up q' hlt hlen hvalue' =>
        have hcols : cols (q' ++ [0]) = cols q' ++ [0] := cols_concat q' 0
        rw [Option.map_some, ← hcols]
        refine .up _ (concat_lt hlt (by omega)) (by simp [hlen]) ?_
        rw [hvalue, value_concat, hvalue', Nat.add_zero]

/-- The vector `r` before a call of `next`, and the least number that has not been dealt with. -/
inductive Head (n : ℕ) : List ℤ → ℕ → Prop
  | column (q : List ℕ) (hlt : ∀ a ∈ q, a < n) (hne : q ≠ []) (hlen : q.length ≤ n) :
      Head n (cols q) (low n n q + n ^ (n - q.length))
  | row (q : List ℕ) (hlt : ∀ a ∈ q, a < n) (hlen : q.length < n) :
      Head n (cols q ++ [-1]) (low n n q)

lemma Head.length_le {r : List ℤ} {x : ℕ} (h : Head n r x) : r.length ≤ n := by
  cases h with
  | column q hlt hne hlen => rwa [length_cols]
  | row q hlt hlen =>
    rw [List.length_append, length_cols]
    exact hlen

lemma Head.next_eq {r : List ℤ} {x : ℕ} (h : Head n r x) :
    (next n r = none ∧ x = n ^ n) ∨
      ∃ q, next n r = some (cols q) ∧ (∀ a ∈ q, a < n) ∧ q ≠ [] ∧ q.length = r.length ∧
        low n n q = x := by
  cases h with
  | column q hlt hne hlen =>
    have hnext := next_cols hlt
    have hlow : low n n q + n ^ (n - q.length) = (value n q + 1) * n ^ (n - q.length) := by
      rw [low, Nat.add_mul, Nat.one_mul]
    rw [hlow]
    generalize next n (cols q) = o at hnext ⊢
    cases hnext with
    | last hlast =>
      refine .inl ⟨rfl, ?_⟩
      rw [hlast, ← pow_add, Nat.add_sub_cancel' hlen]
    | up q' hlt' hlen' hvalue =>
      refine .inr ⟨q', rfl, hlt', ?_, by rw [hlen', length_cols], ?_⟩
      · rintro rfl
        exact hne (List.eq_nil_of_length_eq_zero hlen'.symm)
      · rw [low, hvalue, hlen']
  | row q hlt hlen =>
    refine .inr ⟨q ++ [0], ?_, concat_lt hlt (by omega), by simp, by simp [length_cols], ?_⟩
    · rw [next_concat, if_pos (by omega), cols_concat]
      rfl
    · rw [low_concat 0 hlen, Nat.zero_mul, Nat.add_zero]

/-- The solutions found so far are those below the number of the head. In every round this number
rises, or the vector gets longer. -/
def Inv (n m : ℕ) (s : State) : Prop :=
  ∃ x out, Head n s.r x ∧ s.rs = out.map cols ∧ Enumerates n (Placement n) x out ∧
    m = (n ^ n - x) * (n + 1) + (n - s.r.length)

section rounds

variable {x : ℕ} {out : List (List ℕ)} {rs : List (List ℤ)}

/-- A complete vector is a solution. -/
lemma inv_record (hplace : Placement n q) (hne : q ≠ []) (hlow : low n n q = x)
    (hrs : rs = out.map cols) (hout : Enumerates n (Placement n) x out) :
    Inv n ((n ^ n - (x + 1)) * (n + 1) + (n - (cols q).length)) ⟨cols q, rs ++ [cols q]⟩ := by
  obtain ⟨hlen, hlt⟩ := hplace.digits
  have hvalue : value n q = x := by rw [← hlow, low_full hlen]
  have hhead := Head.column q hlt hne (Nat.le_of_eq hlen)
  rw [hlow, hlen, Nat.sub_self, pow_zero] at hhead
  refine ⟨x + 1, out ++ [q], hhead, ?_, hout.concat (placement_digits n) hplace hvalue, rfl⟩
  simp [hrs]

/-- All vectors with the illegal beginning are passed over. -/
lemma inv_cut {i : ℕ} (hlt : ∀ a ∈ q, a < n) (hn : 0 < n) (hqn : q.length ≤ n)
    (hlow : low n n q = x) (hrs : rs = out.map cols) (hout : Enumerates n (Placement n) x out)
    (hi : i < q.length) (hbad : ¬NonAttacking (q.take (i + 1))) :
    ∃ y, x < y ∧ Inv n ((n ^ n - y) * (n + 1) + (n - ((cols q).take (i + 1)).length))
      ⟨(cols q).take (i + 1), rs⟩ := by
  have htake : (cols q).take (i + 1) = cols (q.take (i + 1)) := List.map_take.symm
  have hpre : q.take (i + 1) <+: q := List.take_prefix _ _
  have hlt' : ∀ a ∈ q.take (i + 1), a < n := fun a ha => hlt a (hpre.mem ha)
  have hlen' : (q.take (i + 1)).length ≤ n := Nat.le_trans hpre.length_le hqn
  obtain ⟨hle, hless⟩ := low_of_prefix hlt hn hqn hpre
  rw [hlow] at hle hless
  refine ⟨_, hless, _, out, ?_, hrs, hout.skip (Nat.le_of_lt hless) fun v hv hxv => ?_, rfl⟩
  · rw [htake]
    refine .column _ hlt' ?_ hlen'
    intro hnil
    have := congrArg List.length hnil
    rw [List.length_take, List.length_nil] at this
    omega
  · exact hv.low_add_le hlt' hlen' hbad (Nat.le_trans hle hxv)

end rounds

lemma body_again {m : ℕ} {s s' : State} (hinv : Inv n m s) (h : body n s = .again s') :
    ∃ k, k < m ∧ Inv n k s' := by
  obtain ⟨x, out, hhead, hrs, hout, rfl⟩ := hinv
  obtain ⟨hnext, -⟩ | ⟨q, hnext, hlt, hne, hlen, hlow⟩ := hhead.next_eq
  · simp [body, hnext] at h
  have hqn : q.length ≤ n := hlen ▸ hhead.length_le
  obtain ⟨a, ha⟩ := List.exists_mem_of_ne_nil q hne
  have hn : 0 < n := Nat.lt_of_le_of_lt (Nat.zero_le a) (hlt a ha)
  have hx : x < n ^ n := by
    have hle := low_add_le hlt hqn
    have hpos : 0 < n ^ (n - q.length) := Nat.pow_pos hn
    omega
  simp only [body, hnext, legal] at h
  cases hillegal : firstIllegal (cols q) with
  | none =>
    simp only [hillegal, length_cols] at h
    by_cases hfull : q.length = n
    · rw [if_pos hfull] at h
      obtain rfl := Round.again.inj h
      have hplace : Placement n q := ⟨⟨hfull, hlt⟩, firstIllegal_eq_none hillegal⟩
      exact ⟨_, variant_lt hx (.inl (Nat.lt_succ_self x)), inv_record hplace hne hlow hrs hout⟩
    · rw [if_neg hfull] at h
      obtain rfl := Round.again.inj h
      refine ⟨_, variant_lt hx (.inr ⟨Nat.le_refl x, ?_, by omega⟩), x, out,
        hlow ▸ .row q hlt (by omega), hrs, hout, rfl⟩
      rw [List.length_append, length_cols, hlen]
      exact Nat.lt_succ_self _
  | some i =>
    obtain ⟨hi, -, hbad⟩ := firstIllegal_eq_some hillegal
    simp only [hillegal] at h
    obtain rfl := Round.again.inj h
    obtain ⟨y, hxy, hinv⟩ := inv_cut hlt hn hqn hlow hrs hout hi hbad
    exact ⟨_, variant_lt hx (.inl hxy), hinv⟩

lemma body_leave {m : ℕ} {s : State} {rs : List (List ℤ)} (hinv : Inv n m s)
    (h : body n s = .leave rs) :
    ∃ out : List (List ℕ),
      out.Pairwise (· < ·) ∧ (∀ v, v ∈ out ↔ Placement n v) ∧ rs = out.map cols := by
  obtain ⟨x, out, hhead, hrs, hout, rfl⟩ := hinv
  obtain ⟨hnext, hx⟩ | ⟨q, hnext, -⟩ := hhead.next_eq
  · simp only [body, hnext] at h
    obtain rfl := Round.leave.inj h
    exact ⟨out, hout.sorted, hout.mem_iff_of_le (placement_digits n) (Nat.le_of_eq hx.symm), hrs⟩
  · simp only [body, hnext] at h
    split at h <;> cases h

lemma loop_placements (hn : 1 ≤ n) :
    ∃ rs : List (List ℕ), rs.Pairwise (· < ·) ∧ (∀ v, v ∈ rs ↔ Placement n v) ∧
      ∀ fuel, (n ^ n + 1) * (n + 1) ≤ fuel → loop (body n) fuel ⟨[-1], []⟩ = some (rs.map cols) := by
  have hhead : Head n [-1] 0 := by
    have hrow := Head.row (n := n) [] (by simp) hn
    rwa [low_nil] at hrow
  obtain ⟨r, ⟨rs, hsorted, hmem, rfl⟩, hloop⟩ := loop_total (I := Inv n)
    (fun _ _ _ => body_again) (fun _ _ _ => body_leave)
    (s := ⟨[-1], []⟩) ⟨0, [], hhead, rfl, enumerates_nil, rfl⟩
  refine ⟨rs, hsorted, hmem, fun fuel hfuel => hloop fuel ?_⟩
  rw [Nat.add_mul] at hfuel
  simp only [Nat.sub_zero, List.length_singleton]
  omega

lemma toResults_cols {rs : List (List ℕ)} (h : ∀ v ∈ rs, v.length = n) :
    toResults n (rs.map cols) = rs.map (board n) := by
  rw [toResults, List.map_map]
  apply List.map_congr_left
  intro v hv
  apply List.ext_getElem
  · simp [board, h v hv]
  · intro i hi hi'
    have hiv : i < v.length := by simpa [board] using hi'
    have hcol := getD_cols v (List.getElem?_eq_getElem hiv)
    rw [List.getD_eq_getElem?_getD] at hcol
    simp [board, hcol]

/-- All placements, each once and in the order of the column vectors. -/
theorem solveNQueens_placements (hn : 1 ≤ n) :
    ∃ rs : List (List ℕ), rs.Pairwise (· < ·) ∧ (∀ v, v ∈ rs ↔ Placement n v) ∧
      ∀ fuel, (n ^ n + 1) * (n + 1) ≤ fuel → solveNQueens fuel n = some (rs.map (board n)) := by
  obtain ⟨rs, hsorted, hmem, hloop⟩ := loop_placements hn
  have hlen : ∀ v ∈ rs, v.length = n := fun v hv => ((hmem v).mp hv).digits.length_eq
  refine ⟨rs, hsorted, hmem, fun fuel hfuel => ?_⟩
  rw [solveNQueens, hloop fuel hfuel, Option.map_some, toResults_cols hlen]

theorem solveNQueens_placements_four :
    ∃ rs : List (List ℕ), [1, 3, 0, 2] ∈ rs ∧ ∀ fuel, (4 ^ 4 + 1) * (4 + 1) ≤ fuel →
      solveNQueens fuel 4 = some (rs.map (board 4)) := by
  obtain ⟨rs, -, hmem, hsolve⟩ := solveNQueens_placements (n := 4) (by decide)
  have hlegal : NonAttacking [1, 3, 0, 2] := firstIllegal_eq_none (by decide)
  exact ⟨rs, (hmem _).mpr ⟨⟨rfl, by decide⟩, hlegal⟩, hsolve⟩

end V2

end CodeC.Leetcode51
